import FlowSwitch.Crc32c
import FlowSwitch.Proofs.Packet.Spelling
import Mathlib.Logic.Function.Iterate

/-!
# The code bit by bit

A step of one bit is linear over exclusive or, and no two states come to the same one by it. So the
steps of a byte are those of its low bits, which the table knows, and a shift of the rest; and data
that differ in one byte never come to the same state again.
-/

namespace FlowSwitch.Crc32c

/-- Takes one bit of the data into the state. -/
def takeBit (crc : BitVec 32) (bit : Bool) : BitVec 32 :=
  if crc.getLsbD 0 ^^ bit then (crc >>> 1) ^^^ polynomial else crc >>> 1

/-- The bits of data, the low end of each byte first. -/
def bits (d : Bytes) : List Bool := d.flatMap fun b => (List.range 8).map b.toBitVec.getLsbD

/-! ## One bit -/

/-- What comes back into the state for a bit that leaves it. -/
def feedback (bit : Bool) : BitVec 32 := if bit then polynomial else 0

theorem feedback_xor (a b : Bool) : feedback (a ^^ b) = feedback a ^^^ feedback b := by
  cases a <;> cases b <;> simp [feedback]

theorem shift_eq (x : BitVec 32) : shift x = (x >>> 1) ^^^ feedback (x.getLsbD 0) := by
  unfold shift feedback
  split
  · rfl
  · exact BitVec.xor_zero.symm

theorem takeBit_eq (crc : BitVec 32) (bit : Bool) :
    takeBit crc bit = (crc >>> 1) ^^^ feedback (crc.getLsbD 0 ^^ bit) := by
  unfold takeBit feedback
  split
  · rfl
  · exact BitVec.xor_zero.symm

theorem shift_xor (x y : BitVec 32) : shift (x ^^^ y) = shift x ^^^ shift y := by
  rw [shift_eq, shift_eq, shift_eq, BitVec.ushiftRight_xor_distrib, BitVec.getLsbD_xor,
    feedback_xor]
  ac_rfl

/-- Bits of the data that wait lie over the state; the lowest of them is taken. -/
theorem shift_xor_waiting (crc w : BitVec 32) :
    shift (crc ^^^ w) = takeBit crc (w.getLsbD 0) ^^^ (w >>> 1) := by
  rw [shift_eq, takeBit_eq, BitVec.ushiftRight_xor_distrib, BitVec.getLsbD_xor]
  ac_rfl

theorem shift_of_clear {x : BitVec 32} (clear : x.getLsbD 0 = false) : shift x = x >>> 1 := by
  rw [shift, clear]
  rfl

/-- The polynomial has the top bit, so a state tells which bit has left it. -/
theorem getLsbD_shift_top (x : BitVec 32) : (shift x).getLsbD 31 = x.getLsbD 0 := by
  have past : x.getLsbD 32 = false := BitVec.getLsbD_of_ge x 32 (Nat.le_refl _)
  rw [shift_eq, BitVec.getLsbD_xor, BitVec.getLsbD_ushiftRight, past]
  cases x.getLsbD 0 <;> decide

theorem shift_injective : Function.Injective shift := by
  intro x y same
  have low : x.getLsbD 0 = y.getLsbD 0 := by
    rw [← getLsbD_shift_top, same, getLsbD_shift_top]
  have rest : x >>> 1 = y >>> 1 := by
    rw [shift_eq, shift_eq, low] at same
    exact (BitVec.xor_left_inj _).mp same
  apply BitVec.eq_of_getLsbD_eq
  intro i _
  cases i with
  | zero => exact low
  | succ i =>
    have bit := congrArg (·.getLsbD i) rest
    simpa only [BitVec.getLsbD_ushiftRight, Nat.add_comm 1 i] using bit

/-! ## One byte -/

theorem shift8_eq (x : BitVec 32) : shift8 x = shift^[8] x := rfl

theorem iterate_shift_xor (n : Nat) (x y : BitVec 32) :
    shift^[n] (x ^^^ y) = shift^[n] x ^^^ shift^[n] y := by
  induction n with
  | zero => rfl
  | succ n ih => simp only [Function.iterate_succ_apply', ih, shift_xor]

/-- As many steps as there are bits waiting take them one after the other. -/
theorem iterate_shift_waiting (n : Nat) (crc w : BitVec 32) :
    shift^[n] (crc ^^^ w) = ((List.range n).map w.getLsbD).foldl takeBit crc ^^^ (w >>> n) := by
  induction n with
  | zero => exact (BitVec.ushiftRight_zero ..).symm
  | succ n ih =>
    rw [Function.iterate_succ_apply', ih, shift_xor_waiting, BitVec.getLsbD_ushiftRight,
      List.range_succ, List.map_append, List.foldl_append, ← BitVec.shiftRight_add]
    rfl

/-- Bits that are clear leave nothing behind. -/
theorem iterate_shift_of_clear {n : Nat} {x : BitVec 32}
    (clear : ∀ i < n, x.getLsbD i = false) : shift^[n] x = x >>> n := by
  induction n with
  | zero => exact (BitVec.ushiftRight_zero ..).symm
  | succ n ih =>
    have low : (x >>> n).getLsbD 0 = false := by
      rw [BitVec.getLsbD_ushiftRight]
      exact clear n (Nat.lt_succ_self n)
    rw [Function.iterate_succ_apply', ih fun i below => clear i (Nat.lt_succ_of_lt below),
      shift_of_clear low, BitVec.shiftRight_add]

theorem getD_table {i : BitVec 32} (small : i.toNat < 256) : table.getD i.toNat 0 = shift8 i := by
  have inside : i.toNat < table.size := by
    rw [table, Array.size_map, Array.size_range]
    exact small
  rw [Array.getD_eq_getD_getElem?, Array.getElem?_eq_getElem inside]
  simp [table]

/-- The bits above the low byte. -/
theorem getLsbD_high (x : BitVec 32) (i : Nat) :
    (x &&& ~~~0xff).getLsbD i = (x.getLsbD i && decide (8 ≤ i)) := by
  have ones : (0xff : BitVec 32).getLsbD i = decide (i < 8) := Nat.testBit_two_pow_sub_one 8 i
  have others : (!decide (i < 8)) = decide (8 ≤ i) := by simp [← decide_not]
  rw [BitVec.getLsbD_and, BitVec.getLsbD_not, ones, others]
  by_cases inside : i < 32
  · rw [decide_eq_true inside, Bool.true_and]
  · rw [BitVec.getLsbD_of_ge x i (by omega), Bool.false_and, Bool.false_and]

theorem low_xor_high (x : BitVec 32) : (x &&& 0xff) ^^^ (x &&& ~~~0xff) = x := by
  apply BitVec.eq_of_getLsbD_eq
  intro i below
  rw [BitVec.getLsbD_xor, BitVec.getLsbD_and, BitVec.getLsbD_and, BitVec.getLsbD_not]
  cases x.getLsbD i <;> cases (0xff : BitVec 32).getLsbD i <;> simp [below]

theorem shift8_high (x : BitVec 32) : shift8 (x &&& ~~~0xff) = x >>> 8 := by
  have clear : ∀ i < 8, (x &&& ~~~0xff).getLsbD i = false := fun i below => by
    rw [getLsbD_high, decide_eq_false (Nat.not_le.mpr below), Bool.and_false]
  rw [shift8_eq, iterate_shift_of_clear clear]
  apply BitVec.eq_of_getLsbD_eq
  intro i _
  rw [BitVec.getLsbD_ushiftRight, BitVec.getLsbD_ushiftRight, getLsbD_high,
    decide_eq_true (Nat.le_add_right 8 i), Bool.and_true]

/-- Looking up the low byte and moving the other bits comes to the eight steps. -/
theorem lookup_eq (x : BitVec 32) : table.getD (x &&& 0xff).toNat 0 ^^^ (x >>> 8) = shift8 x := by
  have small : (x &&& 0xff).toNat < 256 := by
    rw [BitVec.toNat_and]
    exact Nat.lt_of_le_of_lt Nat.and_le_right (by decide)
  calc table.getD (x &&& 0xff).toNat 0 ^^^ (x >>> 8)
      = shift8 (x &&& 0xff) ^^^ shift8 (x &&& ~~~0xff) := by rw [getD_table small, shift8_high]
    _ = shift8 ((x &&& 0xff) ^^^ (x &&& ~~~0xff)) := (iterate_shift_xor 8 _ _).symm
    _ = shift8 x := by rw [low_xor_high]

theorem ofNat_ushiftRight (b : UInt8) : BitVec.ofNat 32 b.toNat >>> 8 = 0 := by
  have small := b.toNat_lt
  apply BitVec.eq_of_toNat_eq
  rw [BitVec.toNat_ushiftRight, BitVec.toNat_ofNat, Nat.shiftRight_eq_div_pow]
  show b.toNat % 2 ^ 32 / 2 ^ 8 = 0
  omega

theorem step_eq (crc : BitVec 32) (b : UInt8) :
    step crc b = shift8 (crc ^^^ BitVec.ofNat 32 b.toNat) := by
  have above : (crc ^^^ BitVec.ofNat 32 b.toNat) >>> 8 = crc >>> 8 := by
    rw [BitVec.ushiftRight_xor_distrib, ofNat_ushiftRight]
    exact BitVec.xor_zero
  rw [← lookup_eq, above, step]

/-- A step of a byte takes its bits one after the other. -/
theorem step_eq_foldl (crc : BitVec 32) (b : UInt8) :
    step crc b = ((List.range 8).map b.toBitVec.getLsbD).foldl takeBit crc := by
  have wide : (List.range 8).map (BitVec.ofNat 32 b.toNat).getLsbD =
      (List.range 8).map b.toBitVec.getLsbD := by
    refine List.map_congr_left fun i inside => ?_
    have below := List.mem_range.mp inside
    rw [BitVec.getLsbD_ofNat, decide_eq_true (by omega : i < 32), Bool.true_and]
    rfl
  rw [step_eq, shift8_eq, iterate_shift_waiting, wide, ofNat_ushiftRight]
  exact BitVec.xor_zero

theorem step_injective_state (b : UInt8) : Function.Injective (step · b) := by
  intro x y same
  dsimp only at same
  rw [step_eq, step_eq, shift8_eq, shift8_eq] at same
  exact (BitVec.xor_left_inj _).mp (shift_injective.iterate 8 same)

theorem step_injective_byte (crc : BitVec 32) : Function.Injective (step crc) := by
  intro b c same
  rw [step_eq, step_eq, shift8_eq, shift8_eq] at same
  have word := (BitVec.xor_right_inj _).mp (shift_injective.iterate 8 same)
  have number := congrArg BitVec.toNat word
  have small := b.toNat_lt
  have small' := c.toNat_lt
  rw [BitVec.toNat_ofNat, BitVec.toNat_ofNat] at number
  apply UInt8.toNat_inj.mp
  omega

/-! ## Data of any length -/

theorem update_append (crc : BitVec 32) (d e : Bytes) :
    update crc (d ++ e) = update (update crc d) e := List.foldl_append

theorem update_eq_bitwise (crc : BitVec 32) (d : Bytes) : update crc d = updateBitwise crc d := by
  unfold update updateBitwise
  congr 1
  funext crc b
  exact step_eq crc b

theorem update_eq_foldl (crc : BitVec 32) (d : Bytes) :
    update crc d = (bits d).foldl takeBit crc := by
  induction d generalizing crc with
  | nil => rfl
  | cons b d ih =>
    rw [bits, List.flatMap_cons, List.foldl_append, ← step_eq_foldl]
    exact ih _

theorem update_injective (d : Bytes) : Function.Injective (update · d) := by
  induction d with
  | nil => exact fun _ _ same => same
  | cons b d ih => exact ih.comp (step_injective_state b)

/-- Data that differ in one byte come to different states. -/
theorem update_ne {d e : Bytes} {i : Nat} (differ : e[i]? ≠ d[i]?)
    (same : ∀ j, j ≠ i → e[j]? = d[j]?) (length : e.length = d.length) (crc : BitVec 32) :
    update crc e ≠ update crc d := by
  induction d generalizing e i crc with
  | nil =>
    rw [List.length_eq_zero_iff.mp length] at differ
    exact absurd rfl differ
  | cons b d ih =>
    cases e with
    | nil => cases length
    | cons c e =>
      have length : e.length = d.length := Nat.succ.inj length
      show update (step crc c) e ≠ update (step crc b) d
      cases i with
      | zero =>
        have rest : e = d := List.ext_getElem? fun j => same (j + 1) (Nat.succ_ne_zero j)
        rw [rest]
        intro equal
        have byte := step_injective_byte crc (update_injective d equal)
        exact differ (congrArg some byte)
      | succ i =>
        have first : c = b := Option.some.inj (same 0 (Nat.succ_ne_zero i).symm)
        rw [first]
        exact ih differ (fun j other => same (j + 1) fun eq => other (Nat.succ.inj eq)) length _

/-! ## SCTP packets -/

theorem littleEndian_injective : Function.Injective littleEndian := by
  intro x y same
  exact Bytes.ofWord_inj (List.reverse_inj.mp same)

theorem crc32c_inj {d e : Bytes} :
    crc32c d = crc32c e ↔ update (BitVec.allOnes 32) d = update (BitVec.allOnes 32) e :=
  BitVec.not_inj

variable {packet other : Bytes}

theorem sctp_eq (long : 12 ≤ packet.length) :
    sctp packet = littleEndian (crc32c (packet.overwrite 8 [0, 0, 0, 0])) := by
  have four : ([0, 0, 0, 0] : Bytes).length = 4 := rfl
  rw [sctp, if_pos long]
  generalize ([0, 0, 0, 0] : Bytes) = s at four ⊢
  rw [Bytes.overwrite, Bytes.overwrite?, four, if_pos long, Option.getD_some]

/-- Of a packet with zeros in the field, what lies outside is that of the packet. -/
theorem getElem?_blanked (long : 12 ≤ packet.length) (i : Nat) :
    (packet.overwrite 8 [0, 0, 0, 0])[i]? =
      if 8 ≤ i ∧ i < 12 then ([0, 0, 0, 0] : Bytes)[i - 8]? else packet[i]? := by
  have four : ([0, 0, 0, 0] : Bytes).length = 4 := rfl
  generalize ([0, 0, 0, 0] : Bytes) = s at four ⊢
  rw [Bytes.getElem?_overwrite (by omega), four]

/-- The checksum of a packet does not depend on the field that it is written to. -/
theorem sctp_congr (length : other.length = packet.length) (long : 12 ≤ packet.length)
    (same : ∀ i, i < 8 ∨ 12 ≤ i → other[i]? = packet[i]?) : sctp other = sctp packet := by
  have blanked : other.overwrite 8 [0, 0, 0, 0] = packet.overwrite 8 [0, 0, 0, 0] := by
    apply List.ext_getElem?
    intro i
    rw [getElem?_blanked (by omega), getElem?_blanked long]
    split
    · rfl
    · exact same i (by omega)
  rw [sctp_eq (by omega), sctp_eq long, blanked]

/-- One byte that differs outside the field is seen. -/
theorem sctp_ne (length : other.length = packet.length) (long : 12 ≤ packet.length) {i : Nat}
    (outside : i < 8 ∨ 12 ≤ i) (differ : other[i]? ≠ packet[i]?)
    (same : ∀ j, j ≠ i → j < 8 ∨ 12 ≤ j → other[j]? = packet[j]?) :
    sctp other ≠ sctp packet := by
  rw [sctp_eq (by omega), sctp_eq long]
  intro equal
  have states := crc32c_inj.mp (littleEndian_injective equal)
  refine update_ne (i := i) ?_ (fun j ne => ?_) ?_ _ states
  · rw [getElem?_blanked (by omega), getElem?_blanked long, if_neg (by omega), if_neg (by omega)]
    exact differ
  · rw [getElem?_blanked (by omega), getElem?_blanked long]
    split
    · rfl
    · exact same j ne (by omega)
  · rw [Bytes.length_overwrite, Bytes.length_overwrite, length]

/-- The code by the table is the code bit by bit, and it takes data in parts. The checksum of an
SCTP packet is that of the packet with zeros in the field of the checksum: it does not depend on
the field, and one byte that differs elsewhere is seen. -/
theorem tabled_eq_bitwise :
    (∀ crc d, update crc d = updateBitwise crc d ∧ update crc d = (bits d).foldl takeBit crc) ∧
      (∀ crc d e, update crc (d ++ e) = update (update crc d) e) ∧
      ∀ packet : Bytes, 12 ≤ packet.length →
        sctp packet = littleEndian (crc32c (packet.overwrite 8 [0, 0, 0, 0])) ∧
        ∀ other : Bytes, other.length = packet.length →
          ((∀ i, i < 8 ∨ 12 ≤ i → other[i]? = packet[i]?) → sctp other = sctp packet) ∧
          ((∃! i, (i < 8 ∨ 12 ≤ i) ∧ other[i]? ≠ packet[i]?) → sctp other ≠ sctp packet) := by
  refine ⟨fun crc d => ⟨update_eq_bitwise crc d, update_eq_foldl crc d⟩, update_append,
    fun packet long => ⟨sctp_eq long, fun other length => ⟨sctp_congr length long, ?_⟩⟩⟩
  rintro ⟨i, ⟨outside, differ⟩, only⟩
  refine sctp_ne length long outside differ fun j ne outside' => ?_
  by_contra differ'
  exact ne (only j ⟨outside', differ'⟩)

example : ~~~(bits [0x31, 0x32, 0x33, 0x34, 0x35, 0x36, 0x37, 0x38, 0x39]).foldl takeBit
    (BitVec.allOnes 32) = 0xe3069283 := by cbv

/-- A header and four bytes of data. -/
def carried : Bytes := [0x0b, 0xb8, 0x0b, 0xb9, 0, 0, 0, 1, 0, 0, 0, 0, 1, 2, 3, 4]

theorem tabled_eq_bitwise_carried :
    12 ≤ carried.length ∧ (carried.overwrite 8 [0xaa, 0xaa, 0xaa, 0xaa]).length = carried.length ∧
      sctp (carried.overwrite 8 [0xaa, 0xaa, 0xaa, 0xaa]) = sctp carried ∧
      (carried.set 12 0x11).length = carried.length ∧
      sctp (carried.set 12 0x11) ≠ sctp carried := by
  obtain ⟨-, -, checked⟩ := tabled_eq_bitwise
  obtain ⟨-, compared⟩ := checked carried (by decide)
  have resealed : (carried.overwrite 8 [0xaa, 0xaa, 0xaa, 0xaa]).length = carried.length :=
    Bytes.length_overwrite ..
  have spoilt : (carried.set 12 0x11).length = carried.length := List.length_set
  refine ⟨by decide, resealed, (compared _ resealed).1 fun i outside => ?_, spoilt,
    (compared _ spoilt).2 ⟨12, ⟨by decide, by decide⟩, ?_⟩⟩
  · exact Bytes.getElem?_overwrite_of_apart outside
  · rintro j ⟨-, differ⟩
    by_contra ne
    exact differ (List.getElem?_set_ne (Ne.symm ne))

end FlowSwitch.Crc32c
