/-!
# Registries

A registry maps keys to values and remembers the order in which the keys were
first added. Replacing a value keeps its place; removing one keeps the order of
the rest. Each operation is told by what `get?` answers after it.
-/

namespace FlowSwitch

structure Registry (κ ν : Type) where
  entries : List (κ × ν) := []

namespace Registry

variable {κ ν : Type} [DecidableEq κ]

def empty : Registry κ ν := {}

instance : Inhabited (Registry κ ν) := ⟨empty⟩

def get? (r : Registry κ ν) (k : κ) : Option ν := (r.entries.find? (·.1 == k)).map (·.2)

def contains (r : Registry κ ν) (k : κ) : Bool := r.entries.any (·.1 == k)

def keys (r : Registry κ ν) : List κ := r.entries.map (·.1)

def values (r : Registry κ ν) : List ν := r.entries.map (·.2)

def size (r : Registry κ ν) : Nat := r.entries.length

def isEmpty (r : Registry κ ν) : Bool := r.entries.isEmpty

/-- Changes the value of a key, if it has one. -/
def modify (r : Registry κ ν) (k : κ) (f : ν → ν) : Registry κ ν :=
  ⟨r.entries.map fun e => if e.1 = k then (e.1, f e.2) else e⟩

/-- Changes every value. -/
def map (r : Registry κ ν) (f : κ → ν → ν) : Registry κ ν :=
  ⟨r.entries.map fun e => (e.1, f e.1 e.2)⟩

def insert (r : Registry κ ν) (k : κ) (v : ν) : Registry κ ν :=
  if r.contains k then r.modify k fun _ => v else ⟨r.entries ++ [(k, v)]⟩

def erase (r : Registry κ ν) (k : κ) : Registry κ ν := ⟨r.entries.filter (·.1 != k)⟩

/-- Keeps the entries whose key passes a test. -/
def filterKeys (r : Registry κ ν) (p : κ → Bool) : Registry κ ν :=
  ⟨r.entries.filter fun e => p e.1⟩

theorem get?_nil (j : κ) : (⟨[]⟩ : Registry κ ν).get? j = none := rfl

theorem get?_cons (e : κ × ν) (l : List (κ × ν)) (j : κ) :
    (⟨e :: l⟩ : Registry κ ν).get? j = if e.1 = j then some e.2 else get? ⟨l⟩ j := by
  by_cases h : e.1 = j
  · simp [get?, h]
  · have : (e.1 == j) = false := beq_eq_false_iff_ne.mpr h
    simp [get?, h, this]

theorem contains_eq_isSome (r : Registry κ ν) (k : κ) : r.contains k = (r.get? k).isSome := by
  rw [Bool.eq_iff_iff]
  simp only [contains, get?, Option.isSome_map, List.find?_isSome, List.any_eq_true]

@[simp]
theorem keys_modify (r : Registry κ ν) (k : κ) (f : ν → ν) : (r.modify k f).keys = r.keys := by
  simp only [modify, keys, List.map_map]
  refine List.map_congr_left fun e _ => ?_
  by_cases h : e.1 = k <;> simp [h]

theorem contains_iff_mem_keys {r : Registry κ ν} {k : κ} : r.contains k = true ↔ k ∈ r.keys := by
  simp [contains, keys]

/-- Keys that stand once each still do after an insertion. -/
theorem nodup_keys_insert {r : Registry κ ν} (distinct : r.keys.Nodup) (k : κ) (v : ν) :
    (r.insert k v).keys.Nodup := by
  unfold insert
  split
  · rw [keys_modify]
    exact distinct
  · rename_i absent
    have apart : ∀ j ∈ r.keys, j ≠ k := fun j inside same =>
      absent (contains_iff_mem_keys.mpr (same ▸ inside))
    simp only [keys, List.map_append, List.map_cons, List.map_nil]
    exact List.nodup_append.mpr ⟨distinct, by simp, by simpa [keys] using apart⟩

theorem get?_modify (r : Registry κ ν) (k j : κ) (f : ν → ν) :
    (r.modify k f).get? j = if j = k then (r.get? j).map f else r.get? j := by
  obtain ⟨l⟩ := r
  induction l with
  | nil => simp [modify, get?_nil]
  | cons e l ih =>
    simp only [modify, List.map_cons, get?_cons] at ih ⊢
    grind

@[simp]
theorem get?_map (r : Registry κ ν) (f : κ → ν → ν) (j : κ) :
    (r.map f).get? j = (r.get? j).map (f j) := by
  obtain ⟨l⟩ := r
  induction l with
  | nil => rfl
  | cons e l ih =>
    simp only [map, List.map_cons, get?_cons] at ih ⊢
    grind

theorem get?_append (l : List (κ × ν)) (m : List (κ × ν)) (j : κ) :
    (⟨l ++ m⟩ : Registry κ ν).get? j = (get? ⟨l⟩ j).or (get? ⟨m⟩ j) := by
  induction l with
  | nil => simp [get?_nil]
  | cons e l ih =>
    simp only [List.cons_append, get?_cons, ih]
    split <;> simp

theorem get?_insert (r : Registry κ ν) (k j : κ) (v : ν) :
    (r.insert k v).get? j = if j = k then some v else r.get? j := by
  have held := r.contains_eq_isSome k
  obtain ⟨l⟩ := r
  unfold insert
  by_cases h : j = k
  · subst h
    cases found : get? ⟨l⟩ j <;>
      simp_all [get?_modify, get?_append, get?_cons]
  · have apart : k ≠ j := Ne.symm h
    split <;> simp [get?_modify, get?_append, get?_cons, get?_nil, h, apart]

theorem get?_erase (r : Registry κ ν) (k j : κ) :
    (r.erase k).get? j = if j = k then none else r.get? j := by
  obtain ⟨l⟩ := r
  induction l with
  | nil => simp [erase, get?_nil]
  | cons e l ih =>
    simp only [erase, List.filter_cons] at ih ⊢
    split
    · simp only [get?_cons]
      grind
    · rw [get?_cons]
      grind

theorem get?_filterKeys (r : Registry κ ν) (p : κ → Bool) (j : κ) :
    (r.filterKeys p).get? j = if p j then r.get? j else none := by
  obtain ⟨l⟩ := r
  induction l with
  | nil => simp [filterKeys, get?_nil]
  | cons e l ih =>
    simp only [filterKeys, List.filter_cons] at ih ⊢
    split
    · simp only [get?_cons]
      grind
    · rw [get?_cons]
      grind

end Registry

end FlowSwitch
