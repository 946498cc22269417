import FlowSwitch.Proofs.Tables.Each

/-!
# The numbers of flow entries

Numbers are given in turn and go with an entry from one instruction set to the next, from
one entry to the one put in for it, and away with it. Until they run out no two entries of
the tables have one number, and so a number finds the entry that it was given to.
-/

namespace FlowSwitch

namespace Tables

variable {may : MeterId → Prop} {t t' : Tables}

/-- The numbers of the entries of all tables. -/
def numbers (t : Tables) : List UInt64 := t.entries.map (·.ref.id)

theorem numbers_perm {l : List FlowEntry} (same : t.entries.Perm l) :
    t.numbers.Perm (l.map (·.ref.id)) := same.map _

theorem numbers_of_outlines (same : t'.outlines = t.outlines) : t'.numbers = t.numbers := by
  have shown (t : Tables) :
      t.numbers = t.outlines.toList.flatMap fun f => f.entries.map (·.ref.id) := by
    simp only [numbers, entries, outlines, Vector.toList_map, List.map_flatMap, List.flatMap_map]
    congr 1
    funext f
    simp [FlowTable.outline, Function.comp_def, FlowEntry.outline, FlowEntry.settled]
  rw [shown, shown, same]

theorem remove_numbers (t : Tables) (now : Time) (refs : List (EntryRef × RemovalReason)) :
    (t.remove now refs).2.numbers.Sublist t.numbers := (t.entries_remove now refs).map _

theorem enroll_numbers {f : FlowTable} {e : FlowEntry}
    (found : t.flowTable? e.ref.table = some f) :
    (t.enroll e).numbers.Perm (e.ref.id :: t.numbers) :=
  numbers_perm (enroll_perm found)

theorem exchange_numbers {f : FlowTable} {old e : FlowEntry}
    (found : t.flowTable? e.ref.table = some f)
    (identical : f.entries.find? e.isIdentical = some old) (number : e.ref.id = old.ref.id) :
    (t.exchange old e).numbers.Perm t.numbers := by
  obtain ⟨rest, was, becomes⟩ := exchange_perm found identical
  have now := numbers_perm becomes
  rw [List.map_cons, number] at now
  exact now.trans (numbers_perm was).symm

/-- No two entries have one number, and none has a number that is still to come. -/
structure Numbered (t : Tables) : Prop where
  nodup : t.numbers.Nodup
  upTo : ∀ i ∈ t.numbers, i ≤ t.newestEntry

theorem Numbered.of_perm (numbered : t.Numbered) (same : t'.numbers.Perm t.numbers)
    (newest : t'.newestEntry = t.newestEntry) : t'.Numbered where
  nodup := same.nodup_iff.mpr numbered.nodup
  upTo := by
    intro i inside
    rw [newest]
    exact numbered.upTo i (same.mem_iff.mp inside)

theorem Numbered.of_sublist (numbered : t.Numbered) (part : t'.numbers.Sublist t.numbers)
    (newest : t'.newestEntry = t.newestEntry) : t'.Numbered where
  nodup := numbered.nodup.sublist part
  upTo := by
    intro i inside
    rw [newest]
    exact numbered.upTo i (part.subset inside)

theorem Numbered.enroll {f : FlowTable} {e : FlowEntry} (numbered : t.Numbered)
    (found : t.flowTable? e.ref.table = some f) (number : e.ref.id = t.newestEntry + 1)
    (left : t.newestEntry.toNat + 1 < UInt64.size) : (t.enroll e).Numbered := by
  have grown := enroll_numbers found
  have next : (t.newestEntry + 1).toNat = t.newestEntry.toNat + 1 := by
    rw [UInt64.toNat_add]
    exact Nat.mod_eq_of_lt left
  have newest : (t.enroll e).newestEntry = t.newestEntry + 1 :=
    (newestEntry_modifyFlow ..).trans number
  have below (i : UInt64) (inside : i ∈ t.numbers) : i.toNat ≤ t.newestEntry.toNat :=
    UInt64.le_iff_toNat_le.mp (numbered.upTo i inside)
  constructor
  · refine grown.nodup_iff.mpr (List.nodup_cons.mpr ⟨fun inside => ?_, numbered.nodup⟩)
    have small := below _ inside
    rw [number, next] at small
    omega
  · intro i inside
    rw [newest, UInt64.le_iff_toNat_le, next]
    rcases List.mem_cons.mp (grown.mem_iff.mp inside) with rfl | earlier
    · rw [number, next]
    · have small := below i earlier
      omega

theorem Move.numbered {l : List Tables} {n : Nat} (move : Move may t l n t') (numbered : t.Numbered)
    (left : t.newestEntry.toNat + n < UInt64.size) : t'.Numbered := by
  have newest := move.newestEntry
  cases move with
  | enroll found alone room clear number known => exact numbered.enroll found number left
  | settle same =>
    have kept := numbers_of_outlines (outlines_of_settled same)
    exact numbered.of_perm (.of_eq kept) (by simpa using newest)
  | instruct =>
    refine numbered.of_perm (.of_eq ?_) (by simpa using newest)
    exact numbers_of_outlines (outlines_instruct ..)
  | exchange found identical clear number known =>
    exact numbered.of_perm (exchange_numbers found identical number) (by simpa using newest)
  | remove => exact numbered.of_sublist (remove_numbers ..) (by simpa using newest)
  | dropGroup => exact numbered.of_sublist (remove_numbers ..) (by simpa using newest)
  | addGroup | changeGroup | addMeter | changeMeter | dropMeters =>
    exact ⟨numbered.nodup, numbered.upTo⟩

/-- While the numbers last, a chain of moves gives each entry its own. -/
theorem Moves.numbered {l : List Tables} {n : Nat} (moves : Moves may t l n t')
    (numbered : t.Numbered) (left : t.newestEntry.toNat + n < UInt64.size) : t'.Numbered := by
  induction moves with
  | none => exact numbered
  | @next t' _ _ _ n _ moves move ih =>
    have earlier := ih (by omega)
    have size : UInt64.size = 18446744073709551616 := rfl
    have given : t'.newestEntry.toNat = t.newestEntry.toNat + n := by
      rw [moves.newestEntry, UInt64.toNat_add, Nat.toUInt64_eq, UInt64.toNat_ofNat']
      omega
    exact move.numbered earlier (by omega)

theorem numbers_empty (capacity : Nat) : (empty capacity).numbers = [] := by
  simp [numbers, entries, empty]

theorem numbered_empty (capacity : Nat) : (empty capacity).Numbered := by
  constructor <;> simp [numbers_empty]

end Tables

end FlowSwitch
