import FlowSwitch.Error

/-!
# Step by step

What is carried out step by step leaves, if a step fails, what the steps before it wrote. A function
that may fail and then has no state to leave says nothing of that; here it is told which steps
come to such a function.
-/

namespace FlowSwitch

/-- What is carried out step by step. An error leaves what was done before it. -/
abbrev Steps (σ α : Type) := EStateM SwitchError σ α

namespace Steps

variable {σ τ α β : Type}

/-- A check changes nothing. -/
def check (x : Except SwitchError α) : Steps σ α := fun s =>
  match x with
  | .ok a => .ok a s
  | .error e => .error e s

/-- Steps in a part of the state. -/
def within (part : σ → τ) (put : σ → τ → σ) (p : Steps τ α) : Steps σ α := fun s =>
  match p (part s) with
  | .ok a t => .ok a (put s t)
  | .error e t => .error e (put s t)

/-- What is left when something comes to a new state or an error. -/
def outcome (s : σ) : Except SwitchError (α × σ) → EStateM.Result SwitchError σ α
  | .ok (a, s') => .ok a s'
  | .error e => .error e s

/-- What is left when something comes to a new state and perhaps an error. -/
def result : Except SwitchError α × σ → EStateM.Result SwitchError σ α
  | (.ok a, s') => .ok a s'
  | (.error e, s') => .error e s'

/-- What is left when a state is reached, with or without an error. -/
def ending (s : σ) : Option SwitchError → EStateM.Result SwitchError σ Unit
  | none => .ok () s
  | some e => .error e s

/-- Checks, and the one write that follows them. -/
def write (checks : σ → Except SwitchError Unit) (change : σ → σ) : Steps σ Unit := do
  let s ← get
  check (checks s)
  modify change

theorem bind_apply (p : Steps σ α) (f : α → Steps σ β) (s : σ) :
    (p >>= f) s = match p s with
      | .ok a s' => f a s'
      | .error e s' => .error e s' := by
  show EStateM.bind p f s = _
  unfold EStateM.bind
  cases p s <;> rfl

theorem get_apply (s : σ) : (get : Steps σ σ) s = .ok s s := rfl

theorem modify_apply (change : σ → σ) (s : σ) :
    (modify change : Steps σ PUnit) s = .ok PUnit.unit (change s) := rfl

theorem throw_apply (e : SwitchError) (s : σ) : (throw e : Steps σ α) s = .error e s := rfl

/-- Steps in a part of the state come to what they come to there. -/
theorem within_outcome {part : τ → σ} {put : τ → σ → τ} {p : Steps σ α} {t : τ}
    {x : Except SwitchError (α × σ)}
    (same : put t (part t) = t) (told : p (part t) = outcome (part t) x) :
    within part put p t = outcome t (x.map fun (a, s) => (a, put t s)) := by
  unfold within
  rw [told]
  cases x with
  | ok answer => rfl
  | error e => exact congrArg (EStateM.Result.error e) same

theorem within_result {part : τ → σ} {put : τ → σ → τ} {p : Steps σ α} {t : τ}
    {x : Except SwitchError α × σ} (told : p (part t) = result x) :
    within part put p t = result (x.1, put t x.2) := by
  unfold within
  rw [told]
  obtain ⟨answer, s⟩ := x
  cases answer <;> rfl

theorem write_apply (checks : σ → Except SwitchError Unit) (change : σ → σ) (s : σ) :
    write checks change s = outcome s ((checks s).map fun _ => ((), change s)) := by
  simp only [write, bind_apply, get_apply]
  cases checks s <;> rfl

/-- Checks of one state come to the first that fails. Induction on what is checked. -/
theorem forM_check_apply (checks : σ → α → Except SwitchError Unit) (l : List α) (s : σ) :
    (l.forM fun a => do check (checks (← get) a) : Steps σ PUnit) s
      = outcome s ((l.forM (checks s)).map fun _ => ((), s)) := by
  induction l with
  | nil => rfl
  | cons a l ih =>
    simp only [List.forM_eq_forM, List.forM_cons, bind_apply, get_apply] at ih ⊢
    cases checks s a with
    | error e => rfl
    | ok _ => exact ih

/-- Writes come to all of them. Induction on what they are for. -/
theorem forM_modify_apply (change : σ → α → σ) (l : List α) (s : σ) :
    (l.forM fun a => modify (change · a) : Steps σ PUnit) s = .ok () (l.foldl change s) := by
  induction l generalizing s with
  | nil => rfl
  | cons a l ih => exact ih (change s a)

end Steps

end FlowSwitch
