import FlowSwitch.Proofs.Action.Latest
import Mathlib.Data.List.Nodup

/-!
# Lists for the action set

A list that is accepted for the action set has no two actions of a category, and so none of a
kind. Every action finds its place free: none is lost, and the order of the list says nothing.
-/

namespace FlowSwitch

/-- Actions of a kind are of a category. -/
theorem Action.setCategory?_congr {a b : Action} (same : a.kind = b.kind) :
    a.setCategory? = b.setCategory? := by
  cases a <;> cases b <;> first | rfl | cases same

namespace ActionList

variable {l l' : ActionList}

theorem fitsSet_of_validateSet (valid : l.validateSet = .ok ()) : l.fitsSet = true := by
  by_contra unfit
  rw [validateSet, if_neg unfit] at valid
  cases valid

theorem distinct_of_fitsSet (fits : l.fitsSet = true) : (l.actions.map Action.kind).Nodup := by
  obtain ⟨-, apart⟩ := Bool.and_eq_true_iff.mp fits
  have apart := List.pairwise_map.mp (of_decide_eq_true apart)
  refine List.pairwise_map.mpr (apart.imp ?_)
  intro a b differ same
  exact differ (Action.setCategory?_congr same)

theorem fitsSet_perm (perm : l'.actions.Perm l.actions) : l'.fitsSet = l.fitsSet := by
  have categories := perm.map Action.setCategory?
  have apart := categories.nodup_iff
  have all : (l'.actions.map Action.setCategory?).all (·.isSome) =
      (l.actions.map Action.setCategory?).all (·.isSome) := categories.all_eq
  simp only [fitsSet, all, apart]

end ActionList

namespace ActionSet

variable {s s' : ActionSet} {actions : List Action} {origin : Option EntryRef}

/-- The set holds just these actions, all from one origin. -/
def Holds (s : ActionSet) (origin : Option EntryRef) (actions : List Action) : Prop :=
  ∀ k w, s.get k = some w ↔ w.action ∈ actions ∧ w.action.kind = k ∧ w.origin = origin

theorem holds_empty (origin : Option EntryRef) : empty.Holds origin [] := by
  intro k w
  constructor
  · intro held
    cases held
  · rintro ⟨inside, -⟩
    cases inside

/-- Sets that hold the same actions are the same. -/
theorem Holds.eq_of_perm (holds : s.Holds origin actions) {others : List Action}
    (also : s'.Holds origin others) (perm : others.Perm actions) : s' = s := by
  have same : s'.get = s.get := by
    funext k
    apply Option.ext
    intro w
    rw [also, holds, perm.mem_iff]
  cases s
  cases s'
  exact congrArg _ same

/-- An action takes its place if none of its kind is in the set. -/
theorem Holds.writeOne (holds : s.Holds origin actions) {a : Action}
    (supported : a.isExperimenter = false) (free : ∀ b ∈ actions, b.kind ≠ a.kind) :
    s.writeOne origin a = .ok (s.put ⟨a, origin⟩) ∧
      (s.put ⟨a, origin⟩).Holds origin (actions ++ [a]) := by
  constructor
  · unfold ActionSet.writeOne
    split
    · cases supported
    · rename_i stored before held
      obtain ⟨inside, is, -⟩ := (holds _ _).mp held
      exact absurd is (free _ inside)
    · rfl
  · intro k w
    rw [get_put, List.mem_append, List.mem_singleton]
    by_cases here : k = a.kind
    · rw [if_pos here]
      constructor
      · intro held
        cases held
        exact ⟨.inr rfl, here.symm, rfl⟩
      · rintro ⟨inside | new, is, from_⟩
        · exact absurd (is.trans here) (free _ inside)
        · rw [← new, ← from_]
    · rw [if_neg here, holds k w]
      constructor
      · rintro ⟨inside, rest⟩
        exact ⟨.inl inside, rest⟩
      · rintro ⟨inside | new, is, from_⟩
        · exact ⟨inside, is, from_⟩
        · exact absurd (new ▸ is).symm here

/-- Induction on the actions that are still to be written. -/
theorem Holds.write (holds : s.Holds origin actions) {l : ActionList}
    (distinct : ((actions ++ l.actions).map Action.kind).Nodup) :
    ∃ s', s.write l origin = .ok s' ∧ s'.Holds origin (actions ++ l.actions) := by
  obtain ⟨rest, supported⟩ := l
  unfold ActionSet.write
  dsimp only at distinct ⊢
  induction rest generalizing s actions with
  | nil => exact ⟨s, rfl, by simpa using holds⟩
  | cons a rest ih =>
    obtain ⟨here, supported⟩ := List.forall_mem_cons.mp supported
    have free : ∀ b ∈ actions, b.kind ≠ a.kind := by
      intro b inside same
      rw [List.map_append, List.nodup_append] at distinct
      exact distinct.2.2 _ (List.mem_map_of_mem inside) _ (List.mem_map_of_mem List.mem_cons_self)
        same
    obtain ⟨first, holds⟩ := holds.writeOne here free
    obtain ⟨s', later, holds⟩ := ih holds supported (by simpa using distinct)
    refine ⟨s', ?_, by simpa using holds⟩
    rw [List.foldlM_cons, first]
    exact later

theorem mem_order {k : ActionKind} (supported : k ≠ .experimenter) : k ∈ order := by
  cases k with
  | experimenter => exact absurd rfl supported
  | _ => decide

/-- The actions of the set are those it holds, each once. -/
theorem Holds.toList_perm {l : ActionList} (holds : s.Holds origin l.actions)
    (distinct : (l.actions.map Action.kind).Nodup) :
    s.toList.Perm (l.actions.map fun a => ⟨a, origin⟩) := by
  have once : s.toList.Nodup := by
    refine List.Nodup.filterMap ?_ (by decide)
    intro k k' w held held'
    exact ((holds k w).mp held).2.1.symm.trans ((holds k' w).mp held').2.1
  have origins : (l.actions.map fun a => WrittenAction.mk a origin).Nodup := by
    refine List.Nodup.of_map (·.action.kind) ?_
    rwa [List.map_map]
  rw [List.perm_ext_iff_of_nodup once origins]
  intro w
  rw [toList, List.mem_filterMap, List.mem_map]
  constructor
  · rintro ⟨k, -, held⟩
    obtain ⟨inside, -, from_⟩ := (holds k w).mp held
    exact ⟨w.action, inside, by rw [← from_]⟩
  · rintro ⟨a, inside, rfl⟩
    have supported : a.kind ≠ .experimenter := by
      simpa [Action.isExperimenter] using l.supported a inside
    exact ⟨a.kind, mem_order supported, (holds _ _).mpr ⟨inside, rfl, rfl⟩⟩

/-- An accepted list may be written in any order: every order is accepted and gives one set, which
holds the actions of the list and no others. -/
theorem write_perm {l l' : ActionList} (valid : l.validateSet = .ok ())
    (perm : l'.actions.Perm l.actions) (origin : Option EntryRef) :
    l'.validateSet = .ok () ∧
      ∃ s, empty.write l origin = .ok s ∧ empty.write l' origin = .ok s ∧
        s.length = l.length ∧ s.toList.Perm (l.actions.map fun a => ⟨a, origin⟩) := by
  have fits := ActionList.fitsSet_of_validateSet valid
  have distinct := ActionList.distinct_of_fitsSet fits
  have fits' : l'.fitsSet = true := (ActionList.fitsSet_perm perm).trans fits
  have distinct' := ActionList.distinct_of_fitsSet fits'
  obtain ⟨s, written, holds⟩ := (holds_empty origin).write (l := l) distinct
  obtain ⟨s', written', holds'⟩ := (holds_empty origin).write (l := l') distinct'
  obtain rfl := holds.eq_of_perm holds' perm
  have actions := holds.toList_perm distinct
  refine ⟨by rw [ActionList.validateSet, if_pos fits'], s', written, written', ?_, actions⟩
  rw [ActionSet.length, actions.length_eq, List.length_map, ActionList.length]

/-- A frame gets a new tag and is sent to two places. -/
def tagging : ActionList where
  actions := [.output 2 0xffff, .setField (Match.any.set .vlanVid (.exact 0x1064)), .group 7,
    .pushVlan 0x8100, .decNwTtl]
  supported := by decide

def taggingReversed : ActionList where
  actions := tagging.actions.reverse
  supported := fun a inside => tagging.supported a (List.mem_reverse.mp inside)

theorem write_perm_reversed :
    tagging.validateSet = .ok () ∧ taggingReversed.actions.Perm tagging.actions ∧
      taggingReversed.validateSet = .ok () ∧
        ∃ s, empty.write taggingReversed none = .ok s ∧ s.length = 5 := by
  have valid : tagging.validateSet = .ok () := by decide
  have perm : taggingReversed.actions.Perm tagging.actions := List.reverse_perm _
  obtain ⟨valid', s, -, written, length, -⟩ := write_perm valid perm none
  exact ⟨valid, perm, valid', s, written, length⟩

end ActionSet

end FlowSwitch
