import FlowSwitch.Proofs.Packet.Bits
import FlowSwitch.Proofs.Packet.Recompute
import FlowSwitch.Proofs.Packet.Spelling

/-!
# Checksums in parts

The sums of parts that hold whole words add up to the checksum of the whole, and so do those of a
pseudo header. Their checksum is the complement of the sum of all words in one's complement, and
no addition on the way leaves 32 bits. Bytes that hold their own checksum verify.
-/

namespace FlowSwitch

namespace Bytes

/-- A word of four bytes is spelled by its two halves. -/
theorem ofWord_halves (w : BitVec 32) :
    ofWord 4 w = ofWord 2 (w.extractLsb' 16 16) ++ ofWord 2 (w.extractLsb' 0 16) := by
  rw [ofWord_four, ofWord_two, ofWord_two]
  simp [high, low, extractLsb'_extractLsb']

end Bytes

namespace Checksum

variable {d e : Bytes} {i m n acc : Nat}

/-! ## The sum in one's complement -/

/-- The big-endian words of some bytes. An odd last byte is the high byte of a word. -/
def words : Bytes → List (BitVec 16)
  | hi :: lo :: rest => (hi.toBitVec ++ lo.toBitVec) :: words rest
  | [last] => [last.toBitVec ++ UInt8.toBitVec 0]
  | [] => []

/-- Addition in one's complement: what is carried out of the word is added at its end. -/
def endAround (a b : BitVec 16) : BitVec 16 :=
  if a.toNat + b.toNat < 0x10000 then a + b else a + b + 1#16

def onesSum (d : Bytes) : BitVec 16 := (words d).foldl endAround 0

/-- The sum of all words, as a number. -/
def wordSum (d : Bytes) : Nat := ((words d).map BitVec.toNat).sum

theorem toNat_endAround (a b : BitVec 16) : (endAround a b).toNat = fold (a.toNat + b.toNat) := by
  have first := a.isLt
  have second := b.isLt
  unfold endAround fold
  split
  · rw [BitVec.toNat_add]
    omega
  · simp only [BitVec.toNat_add, BitVec.toNat_ofNat]
    omega

theorem fold_sumFrom (acc : BitVec 16) (d : Bytes) :
    fold (sumFrom acc.toNat d) = ((words d).foldl endAround acc).toNat := by
  fun_induction words d generalizing acc with
  | case1 hi lo rest ih =>
    rw [sumFrom, List.foldl_cons, ← ih, toNat_endAround, Bytes.toNat_append]
  | case2 last =>
    have none : (0 : UInt8).toNat = 0 := rfl
    rw [sumFrom, List.foldl_cons, List.foldl_nil, toNat_endAround, Bytes.toNat_append, none,
      Nat.add_zero]
  | case3 =>
    have small := acc.isLt
    rw [sumFrom, List.foldl_nil, fold_of_le (by omega)]

theorem toNat_onesSum (d : Bytes) : (onesSum d).toNat = fold (sum d) := (fold_sumFrom 0 d).symm

theorem checksum_eq_not_onesSum (d : Bytes) : checksum d = ~~~onesSum d := by
  have small := (onesSum d).isLt
  rw [checksum, finish, ← toNat_onesSum, fold_of_le (by omega), BitVec.ofNat_toNat,
    BitVec.setWidth_eq]

theorem onesSum_eq_zero_iff (d : Bytes) : onesSum d = 0 ↔ ∀ b ∈ d, b = 0 := by
  rw [← sum_eq_zero_iff, ← fold_eq_zero_iff, ← toNat_onesSum, ← BitVec.toNat_inj]
  rfl

theorem foldl_endAround_residue (ws : List (BitVec 16)) (acc : BitVec 16) :
    (ws.foldl endAround acc).toNat % 0xffff
      = (acc.toNat + (ws.map BitVec.toNat).sum) % 0xffff := by
  induction ws generalizing acc with
  | nil => rfl
  | cons w ws ih =>
    have folded := fold_mod (acc.toNat + w.toNat)
    rw [List.foldl_cons, ih, toNat_endAround, List.map_cons, List.sum_cons]
    omega

theorem onesSum_residue (d : Bytes) : (onesSum d).toNat % 0xffff = wordSum d % 0xffff := by
  rw [onesSum, foldl_endAround_residue, wordSum]
  show (0 + _) % _ = _
  rw [Nat.zero_add]

theorem wordSum_residue (d : Bytes) : sum d % 0xffff = wordSum d % 0xffff := by
  rw [← onesSum_residue, toNat_onesSum, fold_mod]

/-! ## Parts of whole words -/

theorem words_append (whole : d.length % 2 = 0) (e : Bytes) :
    words (d ++ e) = words d ++ words e := by
  fun_induction words d with
  | case1 hi lo rest ih =>
    have whole : rest.length % 2 = 0 := by
      simpa [Nat.add_assoc] using whole
    rw [List.cons_append, List.cons_append, words, ih whole, List.cons_append]
  | case2 last => cases whole
  | case3 => rfl

theorem sum_append_residue (whole : d.length % 2 = 0) (e : Bytes) :
    sum (d ++ e) % 0xffff = (sum d + sum e) % 0xffff := by
  have parts : wordSum (d ++ e) = wordSum d + wordSum e := by
    rw [wordSum, words_append whole, List.map_append, List.sum_append]
    rfl
  have first := wordSum_residue d
  have second := wordSum_residue e
  rw [wordSum_residue, parts]
  omega

/-- Partial sums know the sum of the whole up to its residue. -/
theorem sum_flatten_residue {blocks : List Bytes}
    (whole : ∀ b ∈ blocks.dropLast, b.length % 2 = 0) :
    sum blocks.flatten % 0xffff = (blocks.map sum).sum % 0xffff := by
  induction blocks with
  | nil => rfl
  | cons b rest ih =>
    cases rest with
    | nil => simp
    | cons c rest =>
      obtain ⟨first, whole⟩ := List.forall_mem_cons.mp whole
      have later := ih whole
      rw [List.flatten_cons, sum_append_residue first, List.map_cons, List.sum_cons]
      omega

theorem sums_eq_zero_iff (blocks : List Bytes) :
    (blocks.map sum).sum = 0 ↔ sum blocks.flatten = 0 := by
  rw [sum_eq_zero_iff, List.sum_eq_zero_iff, List.forall_mem_map]
  simp only [sum_eq_zero_iff, List.mem_flatten]
  constructor
  · rintro zeros b ⟨d, among, inside⟩
    exact zeros d among b inside
  · exact fun zeros d among b inside => zeros b ⟨d, among, inside⟩

/-- Of 32 bits, a sum takes 17, and fewer than 2 ^ 15 of them the rest. -/
theorem sums_lt {blocks : List Bytes} (few : blocks.length < 2 ^ 15) :
    (blocks.map sum).sum < 2 ^ 32 := by
  have each : ∀ s ∈ blocks.map sum, s ≤ 2 ^ 17 - 1 :=
    List.forall_mem_map.mpr fun d _ => Nat.le_sub_one_of_lt (sum_lt d)
  have total := List.sum_le_card_nsmul _ _ each
  rw [List.length_map, smul_eq_mul] at total
  omega

/-- What is left of a sum is its residue, and whether it is zero. -/
theorem finish_congr (small : m < 2 ^ 32) (small' : n < 2 ^ 32) (zero : m = 0 ↔ n = 0)
    (residue : m % 0xffff = n % 0xffff) : finish m = finish n := by
  apply BitVec.eq_of_toNat_eq
  rw [toNat_finish _ small, toNat_finish _ small', fold_fold_eq small, fold_fold_eq small']
  by_cases none : m = 0
  · rw [if_pos none, if_pos (zero.mp none)]
  · rw [if_neg none, if_neg fun none' => none (zero.mpr none')]
    omega

theorem finish_sums {blocks : List Bytes} (whole : ∀ b ∈ blocks.dropLast, b.length % 2 = 0)
    (few : blocks.length < 2 ^ 15) : finish (blocks.map sum).sum = checksum blocks.flatten := by
  have small := sum_lt blocks.flatten
  exact finish_congr (sums_lt few) (by omega) (sums_eq_zero_iff blocks)
    (sum_flatten_residue whole).symm

/-- What parts add up to finishes as the checksum of what they join to. -/
theorem finish_of_parts (parts : List Bytes) (whole : ∀ b ∈ parts.dropLast, b.length % 2 = 0)
    (few : parts.length < 2 ^ 15) (total : (parts.map sum).sum = n) (joined : parts.flatten = d) :
    n < 2 ^ 32 ∧ finish n = checksum d := by
  rw [← total, ← joined]
  exact ⟨sums_lt few, finish_sums whole few⟩

/-! ## Sums of 32 bits -/

namespace Checked

/-- Addition of numbers of 32 bits, which is stopped where it leaves them. -/
def add (a b : Nat) : Option Nat := if a + b < 2 ^ 32 then some (a + b) else none

def fold (acc : Nat) : Option Nat := add (acc % 0x10000) (acc / 0x10000)

def sumFrom (acc : Nat) : Bytes → Option Nat
  | hi :: lo :: rest => do
    let next ← fold (← add acc (hi.toNat * 256 + lo.toNat))
    sumFrom next rest
  | [last] => add acc (last.toNat * 256)
  | [] => some acc

/-- The partial sums of all blocks, added up. -/
def sums (blocks : List Bytes) : Option Nat :=
  blocks.foldlM (fun acc b => do add acc (← sumFrom 0 b)) 0

/-- Folds as long as there is a carry. -/
def settle (acc : Nat) : Option Nat :=
  if acc ≤ 0xffff then some acc
  else match _folded : fold acc with
    | some next => settle next
    | none => none
termination_by acc
decreasing_by
  unfold fold add at _folded
  split at _folded
  · cases _folded
    omega
  · cases _folded

def finish (acc : Nat) : Option (BitVec 16) :=
  (settle acc).map fun folded => ~~~BitVec.ofNat 16 folded

def checksum (blocks : List Bytes) : Option (BitVec 16) := do finish (← sums blocks)

theorem add_eq {a b : Nat} (small : a + b < 2 ^ 32) : add a b = some (a + b) := if_pos small

theorem fold_eq (small : acc < 2 ^ 32) : fold acc = some (Checksum.fold acc) :=
  add_eq (by omega)

/-- A sum that starts with a word never leaves 32 bits. -/
theorem sumFrom_eq (small : acc ≤ 0xffff) (d : Bytes) :
    sumFrom acc d = some (Checksum.sumFrom acc d) := by
  fun_induction Checksum.sumFrom acc d with
  | case1 acc hi lo rest ih =>
    have high := hi.toNat_lt
    have low := lo.toNat_lt
    rw [sumFrom, add_eq (by omega), Option.bind_eq_bind, Option.bind_some, fold_eq (by omega)]
    exact ih (Checksum.fold_le_word (by omega))
  | case2 acc last =>
    have high := last.toNat_lt
    exact add_eq (by omega)
  | case3 acc => rfl

theorem foldlM_eq (blocks : List Bytes) (acc : Nat)
    (small : acc + (blocks.map Checksum.sum).sum < 2 ^ 32) :
    blocks.foldlM (fun acc b => do add acc (← sumFrom 0 b)) acc
      = some (acc + (blocks.map Checksum.sum).sum) := by
  induction blocks generalizing acc with
  | nil => rfl
  | cons b blocks ih =>
    rw [List.map_cons, List.sum_cons, ← Nat.add_assoc] at *
    rw [List.foldlM_cons, sumFrom_eq (Nat.zero_le _), ← ih _ small]
    show (add acc (Checksum.sum b)).bind _ = _
    rw [add_eq (by omega)]
    rfl

theorem settle_eq (small : acc < 2 ^ 32) :
    settle acc = some (Checksum.fold (Checksum.fold acc)) := by
  fun_induction settle acc with
  | case1 acc done => rw [fold_of_le done, fold_of_le done]
  | case2 acc more next folded ih =>
    rw [fold_eq small] at folded
    obtain rfl := Option.some.inj folded
    have below : Checksum.fold acc < 2 ^ 32 := by
      unfold Checksum.fold
      omega
    -- Two folds leave nothing to carry, so a third before them changes nothing.
    rw [ih below]
    unfold Checksum.fold
    congr 1
    omega
  | case3 acc more stopped =>
    rw [fold_eq small] at stopped
    cases stopped

theorem finish_eq (small : acc < 2 ^ 32) : finish acc = some (Checksum.finish acc) := by
  rw [finish, settle_eq small]
  rfl

theorem checksum_eq {blocks : List Bytes} (few : blocks.length < 2 ^ 15) :
    checksum blocks = some (Checksum.finish (blocks.map Checksum.sum).sum) := by
  have small := sums_lt few
  rw [checksum, sums, foldlM_eq blocks 0 (by rwa [Nat.zero_add]), Nat.zero_add]
  exact finish_eq small

end Checked

/-! ## Pseudo headers -/

/-- The pseudo header of a message over IPv4, written out. -/
def pseudoBytes4 (src dst : BitVec 32) (proto : BitVec 8) (length : BitVec 16) : Bytes :=
  Bytes.ofWord 4 src ++ Bytes.ofWord 4 dst ++ [0, ⟨proto⟩] ++ Bytes.ofWord 2 length

/-- The pseudo header of a message over IPv6, written out. -/
def pseudoBytes6 (src dst : BitVec 128) (next : BitVec 8) (length : BitVec 32) : Bytes :=
  Bytes.ofWord 16 src ++ Bytes.ofWord 16 dst ++ Bytes.ofWord 4 length ++ [0, 0, 0, ⟨next⟩]

@[simp]
theorem length_pseudoBytes4 (src dst : BitVec 32) (proto : BitVec 8) (length : BitVec 16) :
    (pseudoBytes4 src dst proto length).length = 12 := by
  simp [pseudoBytes4]

@[simp]
theorem length_pseudoBytes6 (src dst : BitVec 128) (next : BitVec 8) (length : BitVec 32) :
    (pseudoBytes6 src dst next length).length = 40 := by
  simp [pseudoBytes6]

theorem sum_pair (hi lo : UInt8) : sum [hi, lo] = hi.toNat * 256 + lo.toNat := by
  have high := hi.toNat_lt
  have low := lo.toNat_lt
  rw [sum, sumFrom, sumFrom, Nat.zero_add, fold_of_le (by omega)]

theorem sum_ofWord_two (w : BitVec 16) : sum (Bytes.ofWord 2 w) = w.toNat := by
  rw [Bytes.ofWord_two, sum_pair, Bytes.toNat_high, Bytes.toNat_low]
  omega

theorem finish_pseudoHeader4 (src dst : BitVec 32) (proto : BitVec 8) (length : BitVec 16)
    (message : Bytes) :
    pseudoHeader4 src dst proto length.toNat + sum message < 2 ^ 32 ∧
      finish (pseudoHeader4 src dst proto length.toNat + sum message)
        = checksum (pseudoBytes4 src dst proto length ++ message) := by
  refine finish_of_parts [Bytes.ofWord 4 src, Bytes.ofWord 4 dst, [0, ⟨proto⟩],
    Bytes.ofWord 2 length, message] ?whole (by simp) ?total (by simp [pseudoBytes4])
  case whole => simp
  case total =>
    have short := length.isLt
    have low : (⟨proto⟩ : UInt8).toNat = proto.toNat := rfl
    have high : (0 : UInt8).toNat = 0 := rfl
    simp only [List.map_cons, List.map_nil, List.sum_cons, List.sum_nil, sum_pair, sum_ofWord_two,
      pseudoHeader4, low, high]
    omega

theorem finish_pseudoHeader6 (src dst : BitVec 128) (next : BitVec 8) (length : BitVec 32)
    (message : Bytes) :
    pseudoHeader6 src dst next length.toNat + sum message < 2 ^ 32 ∧
      finish (pseudoHeader6 src dst next length.toNat + sum message)
        = checksum (pseudoBytes6 src dst next length ++ message) := by
  -- The length is two words, and the partial sum has them apart.
  refine finish_of_parts [Bytes.ofWord 16 src, Bytes.ofWord 16 dst,
    Bytes.ofWord 2 (length.extractLsb' 16 16), Bytes.ofWord 2 (length.extractLsb' 0 16), [0, 0],
    [0, ⟨next⟩], message] ?whole (by simp) ?total (by simp [pseudoBytes6, Bytes.ofWord_halves])
  case whole => simp
  case total =>
    have short := length.isLt
    have low : (⟨next⟩ : UInt8).toNat = next.toNat := rfl
    have high : (0 : UInt8).toNat = 0 := rfl
    simp only [List.map_cons, List.map_nil, List.sum_cons, List.sum_nil, sum_pair, sum_ofWord_two,
      pseudoHeader6, low, high, BitVec.extractLsb'_toNat, Nat.shiftRight_eq_div_pow]
    omega

/-! ## Bytes that hold their checksum -/

/-- Written over zeros, the checksum of some bytes brings their sum to the form of zero that is not
zero, so that they verify. -/
theorem verify_sealed (blank : d.word? 2 (2 * i) = some 0) :
    verify (d.overwrite (2 * i) (Bytes.ofWord 2 (checksum d))) = true := by
  show verify (d.setWord (2 * i) (checksum d)) = true
  have none : BitVec.toNat (0 : BitVec (8 * 2)) = 0 := rfl
  have small := sum_lt d
  have complement : (checksum d).toNat = 0xffff - fold (fold (sum d)) := toNat_finish _ (by omega)
  obtain ⟨below, residue⟩ := fold_fold (sum d) (by omega)
  have written := sum_setWord blank (checksum d)
  refine (verify_iff _).mpr ⟨Nat.pos_of_ne_zero fun zero => ?_, by omega⟩
  -- A sum of zero leaves the word blank, and the checksum of nothing but zeros is not zero.
  have there := Bytes.word?_setWord_self (w := checksum d) (Bytes.word?_fits blank)
  have vanished := word_eq_zero there ((sum_eq_zero_iff _).mp zero)
  have unchanged : d.setWord (2 * i) (checksum d) = d := by
    rw [BitVec.eq_of_toNat_eq (vanished.trans none.symm)]
    exact Bytes.setWord_self blank
  rw [unchanged] at zero
  rw [vanished, zero] at complement
  cases complement

/-- The sums of parts come to the checksum of the whole, and no addition on the way leaves 32 bits.
A checksum is the complement of the sum of all words in one's complement, which is zero for zeros
only, and else the residue of their sum from 1 to 65535. A pseudo header counts as the bytes that
it stands for, and a checksum that is written over zeros verifies. -/
theorem parts_compose :
    (∀ blocks : List Bytes, (∀ b ∈ blocks.dropLast, b.length % 2 = 0) → blocks.length < 2 ^ 15 →
      finish (blocks.map sum).sum = checksum blocks.flatten ∧
        Checked.checksum blocks = some (checksum blocks.flatten)) ∧
    (∀ d : Bytes, checksum d = ~~~onesSum d ∧ (onesSum d = 0 ↔ ∀ b ∈ d, b = 0) ∧
      ((∃ b ∈ d, b ≠ 0) → 1 ≤ (onesSum d).toNat ∧ (onesSum d).toNat ≤ 65535 ∧
        (onesSum d).toNat % 65535 = wordSum d % 65535)) ∧
    (∀ (src dst : BitVec 32) (proto : BitVec 8) (length : BitVec 16) (message : Bytes),
      let total := pseudoHeader4 src dst proto length.toNat + sum message
      (pseudoBytes4 src dst proto length).length = 12 ∧ total < 2 ^ 32 ∧
        finish total = checksum (pseudoBytes4 src dst proto length ++ message)) ∧
    (∀ (src dst : BitVec 128) (next : BitVec 8) (length : BitVec 32) (message : Bytes),
      let total := pseudoHeader6 src dst next length.toNat + sum message
      (pseudoBytes6 src dst next length).length = 40 ∧ total < 2 ^ 32 ∧
        finish total = checksum (pseudoBytes6 src dst next length ++ message)) ∧
    ∀ (d : Bytes) (i : Nat), d.word? 2 (2 * i) = some 0 →
      verify (d.overwrite (2 * i) (Bytes.ofWord 2 (checksum d))) = true := by
  refine ⟨fun blocks whole few => ?blocks, fun d => ?ones, fun src dst proto length message => ?v4,
    fun src dst next length message => ?v6, fun d i => verify_sealed⟩
  case blocks =>
    have composed := finish_sums whole few
    exact ⟨composed, composed ▸ Checked.checksum_eq few⟩
  case ones =>
    refine ⟨checksum_eq_not_onesSum d, onesSum_eq_zero_iff d, fun ⟨b, among, filled⟩ => ?_⟩
    have small := (onesSum d).isLt
    have positive : (onesSum d).toNat ≠ 0 := fun zero =>
      filled ((onesSum_eq_zero_iff d).mp (BitVec.eq_of_toNat_eq zero) b among)
    exact ⟨Nat.pos_of_ne_zero positive, by omega, onesSum_residue d⟩
  case v4 => exact ⟨length_pseudoBytes4 .., finish_pseudoHeader4 ..⟩
  case v6 => exact ⟨length_pseudoBytes6 .., finish_pseudoHeader6 ..⟩

/-- Two parts of whole words, and a byte at the end. -/
def pieces : List Bytes := [[0x12, 0x34, 0xff, 0xff], [0xab, 0xcd], [0xef]]

theorem parts_compose_pieces :
    pieces.dropLast.map List.length = [4, 2] ∧ pieces.length < 2 ^ 15 ∧
      finish (pieces.map sum).sum = checksum pieces.flatten ∧
      Checked.checksum pieces = some (checksum pieces.flatten) ∧
      1 ≤ (onesSum pieces.flatten).toNat ∧
      Bytes.word? [0x12, 0x34, 0x00, 0x00, 0xef] 2 (2 * 1) = some 0 ∧
      verify (Bytes.overwrite [0x12, 0x34, 0x00, 0x00, 0xef] (2 * 1)
        (Bytes.ofWord 2 (checksum [0x12, 0x34, 0x00, 0x00, 0xef]))) = true := by
  obtain ⟨blocks, ones, -, -, written⟩ := parts_compose
  obtain ⟨composed, checked⟩ := blocks pieces (by decide) (by decide)
  obtain ⟨-, -, filled⟩ := ones pieces.flatten
  have blank : Bytes.word? [0x12, 0x34, 0x00, 0x00, 0xef] 2 (2 * 1) = some 0 := by decide
  exact ⟨rfl, by decide, composed, checked, (filled ⟨0x12, by decide, by decide⟩).1, blank,
    written _ _ blank⟩

end Checksum

end FlowSwitch
