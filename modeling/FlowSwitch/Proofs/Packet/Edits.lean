import FlowSwitch.Proofs.Packet.Words

/-!
# Edits of a word

An edit replaces some bits of one word and lets the checksums that cover the word follow. A
patch of many bytes is one edit for each word, and a patch of bytes or of bits under a mask is
one or two.
-/

namespace FlowSwitch

namespace FieldWrite

/-! ## Checksums that follow -/

/-- Lets the checksum at `place` follow a word that changed from `old` to `new`. -/
def follow (old new : BitVec 16) (d : Bytes) (place : Nat) : Bytes :=
  match d.word? 2 place with
  | some sum => d.setWord place (Checksum.update sum old new)
  | none => d

theorem adjust_eq (sums : List Nat) (old new : BitVec 16) (d : Bytes) :
    adjust sums old new d = sums.foldl (follow old new) d := rfl

variable {old new w : BitVec 16} {d : Bytes} {o o' i place : Nat} {sums : List Nat}

@[simp]
theorem length_follow : (follow old new d place).length = d.length := by
  unfold follow
  split
  · exact Bytes.length_setWord ..
  · rfl

theorem getElem?_follow_of_apart (apart : i < place ∨ place + 2 ≤ i) :
    (follow old new d place)[i]? = d[i]? := by
  unfold follow
  split
  · exact Bytes.getElem?_setWord_of_apart apart
  · rfl

theorem follow_overwrite {s : Bytes} (apart : place + 2 ≤ o ∨ o + s.length ≤ place) :
    follow old new (d.overwrite o s) place = (follow old new d place).overwrite o s := by
  unfold follow
  rw [Bytes.word?_overwrite_of_apart apart]
  split
  · refine Bytes.overwrite_comm ?_
    rw [Bytes.length_ofWord]
    exact apart.symm
  · rfl

@[simp]
theorem length_adjust : (adjust sums old new d).length = d.length := by
  rw [adjust_eq]
  induction sums generalizing d with
  | nil => rfl
  | cons place sums ih => rw [List.foldl_cons, ih, length_follow]

theorem getElem?_adjust_of_apart (apart : ∀ s ∈ sums, i < s ∨ s + 2 ≤ i) :
    (adjust sums old new d)[i]? = d[i]? := by
  rw [adjust_eq]
  induction sums generalizing d with
  | nil => rfl
  | cons place sums ih =>
    obtain ⟨here, apart⟩ := List.forall_mem_cons.mp apart
    rw [List.foldl_cons, ih apart, getElem?_follow_of_apart here]

theorem word?_adjust_of_apart (apart : ∀ s ∈ sums, Bytes.Apart s o) :
    (adjust sums old new d).word? 2 o = d.word? 2 o := by
  have byte (i : Nat) (within : o ≤ i ∧ i ≤ o + 1) : (adjust sums old new d)[i]? = d[i]? :=
    getElem?_adjust_of_apart fun s inside => by
      have := apart s inside
      unfold Bytes.Apart at this
      omega
  rw [Bytes.word?_two, Bytes.word?_two, byte o (by omega), byte (o + 1) (by omega)]

theorem adjust_overwrite {t : Bytes} (apart : ∀ s ∈ sums, s + 2 ≤ o ∨ o + t.length ≤ s) :
    adjust sums old new (d.overwrite o t) = (adjust sums old new d).overwrite o t := by
  rw [adjust_eq, adjust_eq]
  induction sums generalizing d with
  | nil => rfl
  | cons place sums ih =>
    obtain ⟨here, apart⟩ := List.forall_mem_cons.mp apart
    rw [List.foldl_cons, List.foldl_cons, follow_overwrite here, ih apart]

theorem adjust_setWord (apart : ∀ s ∈ sums, Bytes.Apart s o) :
    adjust sums old new (d.setWord o w) = (adjust sums old new d).setWord o w :=
  adjust_overwrite (by rwa [Bytes.length_ofWord])

end FieldWrite

/-- The bits under `mask` of the word at `place` become those of `value`, and the checksums at
`sums` follow. -/
structure Edit where
  place : Nat
  mask : BitVec 16
  value : BitVec 16
  sums : List Nat

namespace Edit

def becomes (e : Edit) (w : BitVec 16) : BitVec 16 := (w &&& ~~~e.mask) ||| (e.value &&& e.mask)

def apply (d : Bytes) (e : Edit) : Bytes :=
  match d.word? 2 e.place with
  | some w =>
    if w = e.becomes w then d
    else FieldWrite.adjust e.sums w (e.becomes w) (d.setWord e.place (e.becomes w))
  | none => d

@[simp]
theorem length_apply (d : Bytes) (e : Edit) : (apply d e).length = d.length := by
  unfold apply
  split
  · split
    · rfl
    · rw [FieldWrite.length_adjust, Bytes.length_setWord]
  · rfl

/-- The word at `o` is neither the one that is edited nor one of its checksums. -/
structure Spares (e : Edit) (o : Nat) : Prop where
  place : Bytes.Apart e.place o
  sums : ∀ s ∈ e.sums, Bytes.Apart s o

theorem getElem?_apply_of_apart {d : Bytes} {e : Edit} {i : Nat}
    (place : i < e.place ∨ e.place + 2 ≤ i) (sums : ∀ s ∈ e.sums, i < s ∨ s + 2 ≤ i) :
    (apply d e)[i]? = d[i]? := by
  unfold apply
  split
  · split
    · rfl
    · rw [FieldWrite.getElem?_adjust_of_apart sums, Bytes.getElem?_setWord_of_apart place]
  · rfl

theorem word?_apply_of_spares {d : Bytes} {e : Edit} {o : Nat} (spares : e.Spares o) :
    (apply d e).word? 2 o = d.word? 2 o := by
  unfold apply
  split
  · split
    · rfl
    · rw [FieldWrite.word?_adjust_of_apart spares.sums, Bytes.word?_setWord_of_apart spares.place]
  · rfl

theorem word?_apply_self {d : Bytes} {e : Edit} (sums : ∀ s ∈ e.sums, Bytes.Apart s e.place) :
    (apply d e).word? 2 e.place = (d.word? 2 e.place).map e.becomes := by
  unfold apply
  split
  · rename_i w there
    split
    · rename_i same
      rw [there, Option.map_some, ← same]
    · rw [FieldWrite.word?_adjust_of_apart sums,
        Bytes.word?_setWord_self (Bytes.word?_isSome.mp (by rw [there]; rfl)), there,
        Option.map_some]
  · rename_i absent
    rw [absent, Option.map_none]

/-- Bits under the mask are written. -/
theorem becomes_and_mask (e : Edit) (w : BitVec 16) :
    e.becomes w &&& e.mask = e.value &&& e.mask := by
  apply BitVec.eq_of_getLsbD_eq
  intro i below
  simp only [becomes, BitVec.getLsbD_and, BitVec.getLsbD_or, BitVec.getLsbD_not, below,
    decide_true, Bool.true_and]
  cases e.mask.getLsbD i <;> simp

/-- Bits outside the mask stay. -/
theorem becomes_and {e : Edit} {kept : BitVec 16} (apart : e.mask &&& kept = 0) (w : BitVec 16) :
    e.becomes w &&& kept = w &&& kept := by
  apply BitVec.eq_of_getLsbD_eq
  intro i below
  have bit : (e.mask.getLsbD i && kept.getLsbD i) = false := by
    have none := congrArg (·.getLsbD i) apart
    simpa using none
  simp only [becomes, BitVec.getLsbD_and, BitVec.getLsbD_or, BitVec.getLsbD_not, below,
    decide_true, Bool.true_and]
  revert bit
  cases e.mask.getLsbD i <;> cases kept.getLsbD i <;> simp

/-- Edits of words one after the other from `o` on. -/
def run (o : Nat) (sums : List Nat) : List (BitVec 16) → List Edit
  | [] => []
  | w :: rest => ⟨o, 0xffff, w, sums⟩ :: run (o + 2) sums rest

theorem becomes_full (o : Nat) (w : BitVec 16) (sums : List Nat) (old : BitVec 16) :
    becomes ⟨o, 0xffff, w, sums⟩ old = w := by
  have full : (0xffff : BitVec 16) = BitVec.allOnes 16 := by decide
  simp only [becomes, full, BitVec.not_allOnes, BitVec.and_zero, BitVec.and_allOnes,
    BitVec.zero_or]

end Edit

namespace Bytes

/-! ## Many words -/

/-- The bytes of words. -/
def ofWords (ws : List (BitVec 16)) : Bytes := ws.flatMap (ofWord 2)

/-- The words from `o` on. -/
def wordsAt (d : Bytes) (o : Nat) : Nat → List (BitVec 16)
  | 0 => []
  | n + 1 => d.word 2 o :: wordsAt d (o + 2) n

/-- Replaces words from `o` on. -/
def setWords (d : Bytes) (o : Nat) : List (BitVec 16) → Bytes
  | [] => d
  | w :: rest => setWords (d.setWord o w) (o + 2) rest

/-- The last `n` words of a number. -/
def wordsOf : Nat → Nat → List (BitVec 16)
  | 0, _ => []
  | n + 1, v => wordsOf n (v / 0x10000) ++ [BitVec.ofNat 16 v]

variable {d s : Bytes} {o n : Nat} {ws : List (BitVec 16)}

@[simp]
theorem length_ofWords (ws : List (BitVec 16)) : (ofWords ws).length = 2 * ws.length := by
  induction ws with
  | nil => rfl
  | cons w ws ih =>
    rw [ofWords, List.flatMap_cons, List.length_append, ← ofWords, ih, ofWord, length_ofNat,
      List.length_cons]
    omega

theorem length_wordsOf (n v : Nat) : (wordsOf n v).length = n := by
  induction n generalizing v with
  | zero => rfl
  | succ n ih => rw [wordsOf, List.length_append, ih, List.length_singleton]

theorem ofWords_wordsOf (n v : Nat) : ofWords (wordsOf n v) = ofNat (2 * n) v := by
  induction n generalizing v with
  | zero => rfl
  | succ n ih =>
    have last : ofWord 2 (BitVec.ofNat 16 v) = [(v / 256).toUInt8, v.toUInt8] := by
      rw [ofWord_two]
      congr 1
      · apply UInt8.toNat_inj.mp
        rw [toNat_high, BitVec.toNat_ofNat, Nat.toUInt8_eq, UInt8.toNat_ofNat']
        omega
      · congr 1
        apply UInt8.toNat_inj.mp
        rw [toNat_low, BitVec.toNat_ofNat, Nat.toUInt8_eq, UInt8.toNat_ofNat']
        omega
    have split : v / 256 / 256 = v / 0x10000 := Nat.div_div_eq_div_mul ..
    rw [wordsOf, ofWords, List.flatMap_append, ← ofWords, ih, List.flatMap_singleton, last,
      Nat.mul_succ, ofNat, ofNat, split, List.append_assoc]
    rfl

theorem ofWord_eq (n : Nat) (v : BitVec (8 * (2 * n))) :
    ofWord (2 * n) v = ofWords (wordsOf n v.toNat) :=
  (ofWords_wordsOf n v.toNat).symm

theorem toWords_cons (w : BitVec 16) (rest : Bytes) :
    toWords (ofWord 2 w ++ rest) = w :: toWords rest := by
  rw [ofWord_two]
  show ((high w).toBitVec ++ (low w).toBitVec) :: toWords rest = _
  rw [append_high_low]

theorem toWords_ofWords (ws : List (BitVec 16)) : toWords (ofWords ws) = ws := by
  induction ws with
  | nil => rfl
  | cons w ws ih => rw [ofWords, List.flatMap_cons, ← ofWords, toWords_cons, ih]

theorem overwrite_append {t : Bytes} (fits : o + (s.length + t.length) ≤ d.length) :
    d.overwrite o (s ++ t) = (d.overwrite o s).overwrite (o + s.length) t := by
  apply List.ext_getElem?
  intro i
  rw [getElem?_overwrite (by rw [List.length_append]; exact fits),
    getElem?_overwrite (by rw [length_overwrite]; omega), getElem?_overwrite (by omega),
    List.length_append]
  by_cases first : o ≤ i ∧ i < o + s.length
  · rw [if_pos (by omega), if_neg (by omega), if_pos first, List.getElem?_append_left (by omega)]
  · by_cases second : o + s.length ≤ i ∧ i < o + s.length + t.length
    · rw [if_pos (by omega), if_pos second, List.getElem?_append_right (by omega)]
      congr 1
      omega
    · rw [if_neg (by omega), if_neg second, if_neg first]

theorem overwrite_ofWords (fits : o + 2 * ws.length ≤ d.length) :
    d.overwrite o (ofWords ws) = d.setWords o ws := by
  induction ws generalizing o d with
  | nil =>
    have inside : o ≤ d.length := fits
    simp [ofWords, setWords, overwrite, overwrite?, inside]
  | cons w ws ih =>
    rw [List.length_cons] at fits
    have two : (ofWord 2 w).length = 2 := length_ofNat ..
    rw [ofWords, List.flatMap_cons, ← ofWords,
      overwrite_append (by rw [two, length_ofWords]; omega), two, setWords, ← setWord,
      ih (by rw [length_setWord]; omega)]

theorem slice?_eq (fits : o + 2 * n ≤ d.length) :
    d.slice? o (2 * n) = some (ofWords (d.wordsAt o n)) := by
  induction n generalizing o with
  | zero => simpa [slice?, ofWords, wordsAt] using fits
  | succ n ih =>
    have spelled : d.drop o = d[o] :: d[o + 1] :: d.drop (o + 2) := by
      rw [List.drop_eq_getElem_cons (by omega), List.drop_eq_getElem_cons (by omega)]
    have word : d.word 2 o = d[o].toBitVec ++ d[o + 1].toBitVec := by
      apply word_of_word?
      rw [word?_two, List.getElem?_eq_getElem (by omega), List.getElem?_eq_getElem (by omega)]
      rfl
    have rest := ih (o := o + 2) (by omega)
    rw [slice?, if_pos (by omega), Option.some.injEq] at rest
    rw [slice?, if_pos (by omega), spelled, wordsAt, ofWords, List.flatMap_cons, ← ofWords, ← rest,
      word, ofWord_two, high_append, low_append]
    rfl

theorem wordsAt_congr {d' : Bytes} (same : ∀ i < n, d'.word 2 (o + 2 * i) = d.word 2 (o + 2 * i)) :
    d'.wordsAt o n = d.wordsAt o n := by
  induction n generalizing o with
  | zero => rfl
  | succ n ih =>
    have first : d'.word 2 o = d.word 2 o := same 0 (Nat.succ_pos n)
    rw [wordsAt, wordsAt, first, ih]
    intro i small
    have shifted : o + 2 + 2 * i = o + 2 * (i + 1) := by omega
    rw [shifted]
    exact same (i + 1) (Nat.succ_lt_succ small)

end Bytes

namespace FieldWrite

/-! ## Patches as edits -/

/-- Lets the checksums at `sums` follow a word that may have changed. -/
def settle (sums : List Nat) (d : Bytes) (change : BitVec 16 × BitVec 16) : Bytes :=
  if change.1 = change.2 then d else adjust sums change.1 change.2 d

theorem patch_ofWords {d : Bytes} {o : Nat} {ws : List (BitVec 16)} (sums : List Nat)
    (fits : o + 2 * ws.length ≤ d.length) :
    patch o (Bytes.ofWords ws) sums d =
      ((d.wordsAt o ws.length).zip ws).foldl (settle sums) (d.setWords o ws) := by
  rw [patch, Bytes.length_ofWords, Bytes.slice?_eq fits]
  dsimp only
  rw [Bytes.toWords_ofWords, Bytes.toWords_ofWords, Bytes.overwrite_ofWords fits]
  rfl

theorem settle_setWords {sums : List Nat} {d : Bytes} {o : Nat} {ws : List (BitVec 16)}
    (apart : ∀ s ∈ sums, ∀ i < ws.length, Bytes.Apart s (o + 2 * i))
    (change : BitVec 16 × BitVec 16) :
    settle sums (d.setWords o ws) change = (settle sums d change).setWords o ws := by
  induction ws generalizing o d with
  | nil => rfl
  | cons w ws ih =>
    have here (s : Nat) (inside : s ∈ sums) : Bytes.Apart s o :=
      apart s inside 0 (Nat.succ_pos _)
    rw [Bytes.setWords, Bytes.setWords, ih]
    · congr 1
      unfold settle
      split
      · rfl
      · exact adjust_setWord here
    · intro s inside i small
      have shifted : o + 2 + 2 * i = o + 2 * (i + 1) := by omega
      rw [shifted]
      exact apart s inside (i + 1) (Nat.succ_lt_succ small)

theorem settle_setWord {d : Bytes} {o : Nat} {w : BitVec 16} (sums : List Nat)
    (fits : o + 2 ≤ d.length) :
    settle sums (d.setWord o w) (d.word 2 o, w) = Edit.apply d ⟨o, 0xffff, w, sums⟩ := by
  obtain ⟨old, there⟩ := Option.isSome_iff_exists.mp (Bytes.word?_isSome.mpr fits)
  rw [Edit.apply, there, Bytes.word_of_word? there]
  dsimp only
  rw [Edit.becomes_full, settle]
  dsimp only
  split
  · rename_i same
    rw [← same, Bytes.setWord_self there]
  · rfl

/-- A patch of words is one edit for each word. -/
theorem patch_run {d : Bytes} {o : Nat} {ws : List (BitVec 16)} {sums : List Nat}
    (fits : o + 2 * ws.length ≤ d.length)
    (apart : ∀ s ∈ sums, ∀ i < ws.length, Bytes.Apart s (o + 2 * i)) :
    patch o (Bytes.ofWords ws) sums d = (Edit.run o sums ws).foldl Edit.apply d := by
  rw [patch_ofWords sums fits]
  induction ws generalizing o d with
  | nil => rfl
  | cons w ws ih =>
    rw [List.length_cons] at fits apart
    have shifted (i : Nat) : o + 2 + 2 * i = o + 2 * (i + 1) := by omega
    have rest (s : Nat) (inside : s ∈ sums) (i : Nat) (small : i < ws.length) :
        Bytes.Apart s (o + 2 + 2 * i) :=
      shifted i ▸ apart s inside (i + 1) (Nat.succ_lt_succ small)
    have first := settle_setWord (w := w) sums (show o + 2 ≤ d.length by omega)
    have kept : (Edit.apply d ⟨o, 0xffff, w, sums⟩).wordsAt (o + 2) ws.length
        = d.wordsAt (o + 2) ws.length := by
      apply Bytes.wordsAt_congr
      intro i small
      rw [Bytes.word, Bytes.word, Edit.word?_apply_of_spares ⟨.inl (Nat.le_add_right ..), ?_⟩]
      exact fun s inside => rest s inside i small
    calc
      _ = ((d.wordsAt (o + 2) ws.length).zip ws).foldl (settle sums)
            ((settle sums (d.setWord o w) (d.word 2 o, w)).setWords (o + 2) ws) := by
        rw [← settle_setWords rest]
        rfl
      _ = (Edit.run (o + 2) sums ws).foldl Edit.apply
            (Edit.apply d ⟨o, 0xffff, w, sums⟩) := by
        rw [first, ← kept, ih (by rw [Edit.length_apply]; omega) rest]

theorem patch_of_short {d new : Bytes} {o : Nat} {sums : List Nat}
    (short : d.length < o + new.length) : patch o new sums d = d := by
  rw [patch, Bytes.slice?, if_neg (Nat.not_le.mpr short)]

/-- A patch of a number is one edit for each of its words. -/
theorem patch_ofWord {d : Bytes} {o n : Nat} {v : BitVec (8 * (2 * n))} {sums : List Nat}
    (fits : o + 2 * n ≤ d.length) (apart : ∀ s ∈ sums, ∀ i < n, Bytes.Apart s (o + 2 * i)) :
    patch o (Bytes.ofWord (2 * n) v) sums d
      = (Edit.run o sums (Bytes.wordsOf n v.toNat)).foldl Edit.apply d := by
  rw [Bytes.ofWord_eq, patch_run]
  · rwa [Bytes.length_wordsOf]
  · rwa [Bytes.length_wordsOf]

/-- A patch of one word is one edit, wherever it is. -/
theorem patch_word (d : Bytes) (o : Nat) (w : BitVec 16) {sums : List Nat}
    (apart : ∀ s ∈ sums, Bytes.Apart s o) :
    patch o (Bytes.ofWord 2 w) sums d = Edit.apply d ⟨o, 0xffff, w, sums⟩ := by
  by_cases fits : o + 2 ≤ d.length
  · have one : patch o (Bytes.ofWords [w]) sums d = (Edit.run o sums [w]).foldl Edit.apply d :=
      patch_run fits fun s inside i small => by
        obtain rfl : i = 0 := by simpa using small
        exact apart s inside
    rw [Bytes.ofWords, List.flatMap_singleton] at one
    exact one
  · have none : d.word? 2 o = none := Bytes.word?_eq_none.mpr (Nat.not_le.mp fits)
    have length : (Bytes.ofWord 2 w).length = 2 := Bytes.length_ofNat ..
    rw [Edit.apply, none, patch, length, Bytes.slice?, if_neg fits]

/-! ## Patches of some bits -/

variable {d : Bytes} {o : Nat} {sums : List Nat}

theorem apply_congr {e e' : Edit} (place : e.place = e'.place) (sums : e.sums = e'.sums)
    (becomes : ∀ w, d.word? 2 e.place = some w → e.becomes w = e'.becomes w) :
    Edit.apply d e = Edit.apply d e' := by
  unfold Edit.apply
  rw [← place]
  split
  · rename_i w there
    rw [becomes w there, sums]
  · rfl

theorem patchHigh_eq (value : BitVec 8) (apart : ∀ s ∈ sums, Bytes.Apart s o) :
    patchHigh o value sums d = Edit.apply d ⟨o, 0xff00, value.setWidth 16 <<< 8, sums⟩ := by
  unfold patchHigh
  split
  · rename_i w there
    rw [patch_word d o _ apart]
    refine apply_congr rfl rfl fun w' also => ?_
    obtain rfl : w = w' := Option.some.inj (there.symm.trans also)
    have kept : ~~~(0xff00 : BitVec 16) = ((0x00ff : Nat) : BitVec 16) := by decide
    have few : (0xff00 : BitVec 16) = (BitVec.allOnes 8).setWidth 16 <<< 8 := by decide
    have written :
        (value.setWidth 16 <<< 8) &&& (0xff00 : BitVec 16) = value.setWidth 16 <<< 8 := by
      rw [few, ← BitVec.shiftLeft_and_distrib, ← BitVec.setWidth_and, BitVec.and_allOnes]
    rw [Edit.becomes_full, Edit.becomes]
    dsimp only
    rw [kept, written]
  · rename_i absent
    rw [Edit.apply, absent]

theorem patchLow_eq (value : BitVec 8) (apart : ∀ s ∈ sums, Bytes.Apart s o) :
    patchLow o value sums d = Edit.apply d ⟨o, 0x00ff, value.setWidth 16, sums⟩ := by
  unfold patchLow
  split
  · rename_i w there
    rw [patch_word d o _ apart]
    refine apply_congr rfl rfl fun w' also => ?_
    obtain rfl : w = w' := Option.some.inj (there.symm.trans also)
    have kept : ~~~(0x00ff : BitVec 16) = 0xff00 := by decide
    have few : (0x00ff : BitVec 16) = (BitVec.allOnes 8).setWidth 16 := by decide
    have written : value.setWidth 16 &&& 0x00ff = value.setWidth 16 := by
      rw [few, ← BitVec.setWidth_and, BitVec.and_allOnes]
    rw [Edit.becomes_full, Edit.becomes]
    dsimp only
    rw [kept, written]
  · rename_i absent
    rw [Edit.apply, absent]

/-- Some bits of the low byte of a word. -/
theorem patchTos_eq (mask value : BitVec 8) (apart : ∀ s ∈ sums, Bytes.Apart s o) :
    patchLow o ((d.byte (o + 1) &&& ~~~mask) ||| (value &&& mask)) sums d =
      Edit.apply d ⟨o, mask.setWidth 16, value.setWidth 16, sums⟩ := by
  rw [patchLow_eq _ apart]
  refine apply_congr rfl rfl fun w there => ?_
  rw [Bytes.word?_two] at there
  obtain ⟨hi, -, rest⟩ := Option.bind_eq_some_iff.mp there
  obtain ⟨lo, second, rfl⟩ := Option.map_eq_some_iff.mp rest
  have byte : d.byte (o + 1) = lo.toBitVec := by rw [Bytes.byte, second, Option.getD_some]
  have full : (0x00ff : BitVec 16) = (BitVec.allOnes 8).setWidth 16 := by decide
  apply BitVec.eq_of_getLsbD_eq
  intro i below
  simp only [Edit.becomes, byte, full, BitVec.getLsbD_or, BitVec.getLsbD_and, BitVec.getLsbD_not,
    BitVec.getLsbD_setWidth, BitVec.getLsbD_append, BitVec.getLsbD_allOnes, below, decide_true,
    Bool.true_and]
  by_cases low : i < 8
  · simp [low]
  · have beyond (v : BitVec 8) : v.getLsbD i = false := BitVec.getLsbD_of_ge v i (by omega)
    simp [low, beyond]

/-- The words of a word of 32 bits. -/
def upper (v : BitVec 32) : BitVec 16 := v.extractLsb' 16 16

def lower (v : BitVec 32) : BitVec 16 := v.extractLsb' 0 16

theorem wordsOf_two (v : BitVec 32) : Bytes.wordsOf 2 v.toNat = [upper v, lower v] := by
  have small := v.isLt
  have high : BitVec.ofNat 16 (v.toNat / 0x10000) = upper v := by
    apply BitVec.eq_of_toNat_eq
    rw [upper, BitVec.extractLsb'_toNat, BitVec.toNat_ofNat, Nat.shiftRight_eq_div_pow]
  have low : BitVec.ofNat 16 v.toNat = lower v := by
    apply BitVec.eq_of_toNat_eq
    rw [lower, BitVec.extractLsb'_toNat, BitVec.toNat_ofNat, Nat.shiftRight_zero]
  rw [← high, ← low]
  rfl

theorem upper_replaced (w mask value : BitVec 32) :
    upper ((w &&& ~~~mask) ||| (value &&& mask)) =
      (upper w &&& ~~~upper mask) ||| (upper value &&& upper mask) := by
  apply BitVec.eq_of_getLsbD_eq
  intro i below
  have inside : 16 + i < 32 := by omega
  simp [upper, below, inside]

theorem lower_replaced (w mask value : BitVec 32) :
    lower ((w &&& ~~~mask) ||| (value &&& mask)) =
      (lower w &&& ~~~lower mask) ||| (lower value &&& lower mask) := by
  simp only [lower, BitVec.extractLsb'_or, BitVec.extractLsb'_and]
  rw [BitVec.extractLsb'_not_of_lt (by decide)]

theorem word?_four {w : BitVec 32} (there : d.word? 4 o = some w) :
    d.word? 2 o = some (upper w) ∧ d.word? 2 (o + 2) = some (lower w) := by
  have fits : o + 4 ≤ d.length := Bytes.word?_fits there
  obtain ⟨a, first⟩ := Option.isSome_iff_exists.mp
    (Bytes.word?_isSome.mpr (show o + 2 ≤ d.length by omega))
  obtain ⟨b, second⟩ := Option.isSome_iff_exists.mp
    (Bytes.word?_isSome.mpr (show o + 2 + 2 ≤ d.length by omega))
  have spelled : (Bytes.ofWords [a, b]).toNat = a.toNat * 0x10000 + b.toNat := by
    have high := Bytes.toNat_high a
    have low := Bytes.toNat_low a
    have high' := Bytes.toNat_high b
    have low' := Bytes.toNat_low b
    simp only [Bytes.ofWords, List.flatMap_cons, List.flatMap_nil, Bytes.ofWord_two,
      List.cons_append, List.nil_append, Bytes.toNat, List.foldl_cons, List.foldl_nil]
    omega
  rw [Bytes.word?, Bytes.slice?_eq (n := 2) fits, Bytes.wordsAt, Bytes.wordsAt, Bytes.wordsAt,
    Bytes.word_of_word? first, Bytes.word_of_word? second, Option.map_some, spelled] at there
  obtain rfl := Option.some.inj there
  have small := a.isLt
  have small' := b.isLt
  rw [first, second, Option.some.injEq, Option.some.injEq]
  constructor
  · apply BitVec.eq_of_toNat_eq
    rw [upper, BitVec.extractLsb'_toNat, BitVec.toNat_ofNat, Nat.shiftRight_eq_div_pow]
    omega
  · apply BitVec.eq_of_toNat_eq
    rw [lower, BitVec.extractLsb'_toNat, BitVec.toNat_ofNat, Nat.shiftRight_zero]
    omega

theorem patchMasked_eq (mask value : BitVec 32) (fits : o + 4 ≤ d.length) :
    patchMasked o mask value d =
      [⟨o, upper mask, upper value, []⟩, ⟨o + 2, lower mask, lower value, []⟩].foldl
        Edit.apply d := by
  obtain ⟨w, there⟩ : ∃ w, d.word? 4 o = some w := by
    simp [Bytes.word?, Bytes.slice?, fits]
  obtain ⟨first, second⟩ := word?_four there
  have apart (s : Nat) (inside : s ∈ ([] : List Nat)) : ∀ i < 2, Bytes.Apart s (o + 2 * i) := by
    cases inside
  rw [patchMasked, there]
  dsimp only
  rw [patch_ofWord (n := 2) fits apart, wordsOf_two]
  have one : Edit.apply d ⟨o, 0xffff, upper ((w &&& ~~~mask) ||| (value &&& mask)), []⟩
      = Edit.apply d ⟨o, upper mask, upper value, []⟩ :=
    apply_congr rfl rfl fun w' also => by
      obtain rfl : upper w = w' := Option.some.inj (first.symm.trans also)
      rw [Edit.becomes_full, upper_replaced, Edit.becomes]
  have spared : (Edit.apply d ⟨o, upper mask, upper value, []⟩).word? 2 (o + 2)
      = some (lower w) := by
    rw [Edit.word?_apply_of_spares ⟨.inl (Nat.le_refl _), fun s inside => by cases inside⟩, second]
  have two : Edit.apply (Edit.apply d ⟨o, upper mask, upper value, []⟩)
        ⟨o + 2, 0xffff, lower ((w &&& ~~~mask) ||| (value &&& mask)), []⟩
      = Edit.apply (Edit.apply d ⟨o, upper mask, upper value, []⟩)
        ⟨o + 2, lower mask, lower value, []⟩ :=
    apply_congr rfl rfl fun w' also => by
      obtain rfl : lower w = w' := Option.some.inj (spared.symm.trans also)
      rw [Edit.becomes_full, lower_replaced, Edit.becomes]
  simp only [Edit.run, List.foldl_cons, List.foldl_nil, one, two]

end FieldWrite

end FlowSwitch
