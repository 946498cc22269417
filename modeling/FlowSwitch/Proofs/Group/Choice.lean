import FlowSwitch.Group.Choice
import Mathlib.Algebra.Ring.Nat
import Mathlib.Data.Finset.Card
import Mathlib.Data.Finset.Filter
import Mathlib.Data.Finset.Range

/-!
# The shares of buckets

A select group chooses by a remainder. Its live buckets stand end to end, each over as many
remainders as it weighs, so a bucket is chosen by exactly as many as that, and one that weighs
nothing by none. Nothing is assumed of the number that is drawn.
-/

namespace FlowSwitch

namespace Bucket

variable {live : List (Nat × Nat)} {i point weight : Nat}

theorem extent_eq (live : List (Nat × Nat)) : extent live = (live.map Prod.snd).sum := by
  induction live with
  | nil => rfl
  | cons first rest ih => simp [extent, ih]

theorem mem_of_owner? (owned : owner? point live = some i) :
    ∃ weight, (i, weight) ∈ live ∧ 0 < weight := by
  induction live generalizing point with
  | nil => simp [owner?] at owned
  | cons first rest ih =>
    rw [owner?] at owned
    split at owned
    · next inside => exact ⟨first.2, by simp [← Option.some.inj owned], by omega⟩
    · obtain ⟨weight, mem, positive⟩ := ih owned
      exact ⟨weight, List.mem_cons_of_mem _ mem, positive⟩

theorem owner?_isSome (inside : point < extent live) : (owner? point live).isSome := by
  induction live generalizing point with
  | nil => exact absurd inside (Nat.not_lt_zero _)
  | cons first rest ih =>
    rw [extent] at inside
    rw [owner?]
    split
    · rfl
    · exact ih (by omega)

/-- A point behind the first interval belongs to whom it belongs to in the rest. -/
theorem owner?_behind (first : Nat × Nat) (rest : List (Nat × Nat)) (point : Nat) :
    owner? (first.2 + point) (first :: rest) = owner? point rest := by
  rw [owner?, if_neg (by omega), Nat.add_sub_cancel_left]

/-- How many points an owner has. -/
def share (live : List (Nat × Nat)) (i : Nat) : Nat :=
  (List.range (extent live)).countP fun point => owner? point live = some i

theorem share_cons (first : Nat × Nat) (rest : List (Nat × Nat)) (i : Nat) :
    share (first :: rest) i = (if first.1 = i then first.2 else 0) + share rest i := by
  have front : (List.range first.2).countP (fun point => owner? point (first :: rest) = some i)
      = if first.1 = i then first.2 else 0 := by
    have same : ∀ point ∈ List.range first.2,
        decide (owner? point (first :: rest) = some i) = true
          ↔ decide (first.1 = i) = true := by
      intro point mem
      rw [owner?, if_pos (List.mem_range.mp mem)]
      simp
    rw [List.countP_congr same]
    by_cases own : first.1 = i <;> simp [own]
  rw [share, extent, List.range_add, List.countP_append, front, List.countP_map]
  simp only [Function.comp_def, owner?_behind]
  rfl

theorem share_eq_zero (other : i ∉ live.map Prod.fst) : share live i = 0 := by
  rw [share, List.countP_eq_zero]
  intro point _ owned
  obtain ⟨weight, mem, _⟩ := mem_of_owner? (of_decide_eq_true owned)
  exact other (List.mem_map_of_mem mem)

/-- Owners that are told apart have as many points as their intervals are long. -/
theorem share_eq (distinct : (live.map Prod.fst).Nodup) (mem : (i, weight) ∈ live) :
    share live i = weight := by
  induction live with
  | nil => simp at mem
  | cons first rest ih =>
    rw [List.map_cons, List.nodup_cons] at distinct
    rw [share_cons]
    obtain rfl | mem := List.mem_cons.mp mem
    · rw [if_pos rfl, share_eq_zero distinct.1, Nat.add_zero]
    · have other : first.1 ≠ i := by
        rintro rfl
        exact distinct.1 (List.mem_map.mpr ⟨_, mem, rfl⟩)
      rw [if_neg other, Nat.zero_add, ih distinct.2 mem]

variable (buckets : List Bucket) (livePort : PortNo → Bool)

/-- The places of the live buckets and what they weigh. -/
def stakes : List (Nat × Nat) :=
  (buckets.zipIdx.filter fun (b, _) => b.isLive livePort).map fun (b, i) => (i, b.weight.toNat)

/-- What the live buckets weigh together. -/
def liveWeight : Nat := ((buckets.filter (·.isLive livePort)).map (·.weight.toNat)).sum

theorem mem_stakes {buckets : List Bucket} {livePort : PortNo → Bool} :
    (i, weight) ∈ stakes buckets livePort
      ↔ ∃ b, buckets[i]? = some b ∧ b.isLive livePort = true ∧ b.weight.toNat = weight := by
  simp only [stakes, List.mem_map, List.mem_filter, Prod.exists, List.mem_zipIdx_iff_getElem?,
    Prod.mk.injEq]
  constructor
  · rintro ⟨b, _, ⟨found, isLive⟩, rfl, weighs⟩
    exact ⟨b, found, isLive, weighs⟩
  · rintro ⟨b, found, isLive, weighs⟩
    exact ⟨b, i, ⟨found, isLive⟩, rfl, weighs⟩

theorem stakes_distinct : ((stakes buckets livePort).map Prod.fst).Nodup := by
  have places : (stakes buckets livePort).map Prod.fst
      = (buckets.zipIdx.filter fun (b, _) => b.isLive livePort).map Prod.snd := by
    rw [stakes, List.map_map]
    rfl
  have sub := (List.filter_sublist (p := fun x : Bucket × Nat => x.1.isLive livePort)
    (l := buckets.zipIdx)).map Prod.snd
  rw [List.zipIdx_map_snd] at sub
  rw [places]
  exact sub.nodup (List.nodup_range' 1)

theorem extent_stakes : extent (stakes buckets livePort) = liveWeight buckets livePort := by
  have weights : (stakes buckets livePort).map Prod.snd
      = ((buckets.zipIdx.map Prod.fst).filter (·.isLive livePort)).map (·.weight.toNat) := by
    rw [stakes, List.map_map, List.filter_map, List.map_map]
    rfl
  rw [extent_eq, weights, List.zipIdx_map_fst, liveWeight]

theorem liveWeight_eq_zero_iff {buckets : List Bucket} {livePort : PortNo → Bool} :
    liveWeight buckets livePort = 0
      ↔ ∀ b ∈ buckets, b.isLive livePort = true → b.weight = 0 := by
  simp only [liveWeight, List.sum_eq_zero_iff_forall_eq_nat, List.forall_mem_map,
    List.mem_filter, and_imp, ← UInt16.toNat_inj, UInt16.toNat_zero]

/-- A choice is told by the remainder of the number by what the live buckets weigh. -/
theorem select?_eq (pick : UInt64) :
    select? buckets livePort pick
      = if liveWeight buckets livePort = 0 then none
        else owner? (pick.toNat % liveWeight buckets livePort) (stakes buckets livePort) := by
  rw [← extent_stakes]
  rfl

theorem select?_eq_none_iff {buckets : List Bucket} {livePort : PortNo → Bool} {pick : UInt64} :
    select? buckets livePort pick = none
      ↔ ∀ b ∈ buckets, b.isLive livePort = true → b.weight = 0 := by
  rw [← liveWeight_eq_zero_iff, select?_eq]
  constructor
  · intro refused
    by_contra weighs
    rw [if_neg weighs] at refused
    have inside : pick.toNat % liveWeight buckets livePort < extent (stakes buckets livePort) := by
      rw [extent_stakes]
      exact Nat.mod_lt _ (Nat.pos_of_ne_zero weighs)
    have owned := owner?_isSome inside
    rw [refused] at owned
    cases owned
  · intro nothing
    rw [if_pos nothing]

theorem of_select?_eq_some {buckets : List Bucket} {livePort : PortNo → Bool} {pick : UInt64}
    (chosen : select? buckets livePort pick = some i) :
    ∃ b, buckets[i]? = some b ∧ b.isLive livePort = true ∧ 0 < b.weight.toNat := by
  rw [select?_eq] at chosen
  split at chosen
  · cases chosen
  · obtain ⟨weight, mem, positive⟩ := mem_of_owner? chosen
    obtain ⟨b, found, isLive, rfl⟩ := mem_stakes.mp mem
    exact ⟨b, found, isLive, positive⟩

/-- A bucket is live just if the port that it watches, if any, is, and so is every physical port
that it sends to. -/
theorem isLive_iff {b : Bucket} {livePort : PortNo → Bool} :
    b.isLive livePort = true
      ↔ (b.watchPort = PortNo.any ∨ livePort b.watchPort = true) ∧
        ∀ port maxLength, .output port maxLength ∈ b.actions.actions →
          1 ≤ port → port ≤ PortNo.last → livePort port = true := by
  rw [isLive, Bool.and_eq_true, Bool.or_eq_true, beq_iff_eq, List.all_eq_true]
  refine and_congr_right fun _ => ⟨fun sends port maxLength mem low high => ?_,
    fun sends a mem => ?_⟩
  · simpa [PortNo.isPhysical, low, high] using sends _ mem
  · cases a with
    | output port maxLength =>
      rw [Bool.or_eq_true, Bool.not_eq_true', or_iff_not_imp_left, Bool.not_eq_false]
      intro physical
      rw [PortNo.isPhysical, Bool.and_eq_true, decide_eq_true_eq, decide_eq_true_eq] at physical
      exact sends port maxLength mem physical.1 physical.2
    | _ => rfl

/-- The remainders by which the bucket at a place is chosen. -/
def remainders (i : Nat) : Finset Nat :=
  (Finset.range (liveWeight buckets livePort)).filter fun point =>
    owner? point (stakes buckets livePort) = some i

theorem card_remainders {buckets : List Bucket} {livePort : PortNo → Bool} {b : Bucket}
    (found : buckets[i]? = some b) (isLive : b.isLive livePort = true) :
    (remainders buckets livePort i).card = b.weight.toNat := by
  have owns := share_eq (stakes_distinct buckets livePort)
    (mem_stakes.mpr ⟨b, found, isLive, rfl⟩)
  rw [share, extent_stakes, List.countP_eq_length_filter] at owns
  exact owns

theorem select?_eq_some_iff {buckets : List Bucket} {livePort : PortNo → Bool} {pick : UInt64} :
    select? buckets livePort pick = some i
      ↔ pick.toNat % liveWeight buckets livePort ∈ remainders buckets livePort i := by
  rw [select?_eq, remainders, Finset.mem_filter, Finset.mem_range]
  split
  · next nothing => simp [nothing]
  · next weighs => simp [Nat.mod_lt pick.toNat (Nat.pos_of_ne_zero weighs)]

/-- A choice fails just if no live bucket weighs anything, and else comes to a live bucket that
does. Every live bucket is chosen by as many remainders of the number as it weighs. -/
theorem choice_exact (buckets : List Bucket) (livePort : PortNo → Bool) :
    (∀ pick, select? buckets livePort pick = none
      ↔ ∀ b ∈ buckets, b.isLive livePort = true → b.weight = 0) ∧
    (∀ pick i, select? buckets livePort pick = some i →
      ∃ b, buckets[i]? = some b ∧ b.isLive livePort = true ∧ 0 < b.weight.toNat) ∧
    (∀ i b, buckets[i]? = some b → b.isLive livePort = true →
      ∃ own ⊆ Finset.range (liveWeight buckets livePort), own.card = b.weight.toNat ∧
        ∀ pick : UInt64, select? buckets livePort pick = some i
          ↔ pick.toNat % liveWeight buckets livePort ∈ own) ∧
    (∀ b : Bucket, b.isLive livePort = true
      ↔ (b.watchPort = PortNo.any ∨ livePort b.watchPort = true) ∧
        ∀ port maxLength, .output port maxLength ∈ b.actions.actions →
          1 ≤ port → port ≤ PortNo.last → livePort port = true) := by
  refine ⟨fun _ => select?_eq_none_iff, fun _ _ => of_select?_eq_some, fun i b found isLive => ?_,
    fun _ => isLive_iff⟩
  exact ⟨remainders buckets livePort i, Finset.filter_subset _ _, card_remainders found isLive,
    fun _ => select?_eq_some_iff⟩

/-- Buckets of weight 2 and 1, and between them one that weighs nothing and one that watches a
port. -/
def fourBuckets : List Bucket :=
  [{ weight := 2, actions := .empty }, { weight := 0, actions := .empty },
    { weight := 3, watchPort := 7, actions := .empty }, { weight := 1, actions := .empty }]

theorem choice_exact_fourBuckets :
    ∃ own ⊆ Finset.range 3, own.card = 2 ∧
      ∀ pick : UInt64, select? fourBuckets (fun _ => false) pick = some 0
        ↔ pick.toNat % 3 ∈ own :=
  (choice_exact fourBuckets fun _ => false).2.2.1 0 _ rfl rfl

example : (List.range 3).map (fun pick => select? fourBuckets (fun _ => false) (.ofNat pick))
    = [some 0, some 0, some 3] := by
  decide

end Bucket

end FlowSwitch
