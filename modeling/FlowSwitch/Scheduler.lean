import FlowSwitch.Time

/-!
# Periodic tasks

A task is called every time its interval has passed since it was added, until the
scheduler stops it. A call that is due at the very moment at which time stands still
comes when time passes on. A task without an interval cannot be called; it ends as
soon as time passes. Nothing waits longer than thirty years, neither a task for its
next call nor whoever lets time pass.
-/

namespace FlowSwitch

/-- Thirty years of 365 days. -/
def longestWait : Time := 30 * 365 * 86400 * Time.second

structure PeriodicTask where
  interval : Time
  /-- How long the task has been running. -/
  age : Time := 0
  isActive : Bool := true
  deriving DecidableEq, Repr

namespace PeriodicTask

/-- How often the task has been called: once for each multiple of the interval below its age. -/
def calls (t : PeriodicTask) : Nat := (t.age - 1) / t.interval

theorem le_calls_iff {t : PeriodicTask} (h : 0 < t.interval) {n : Nat} (hn : 0 < n) :
    n ≤ t.calls ↔ n * t.interval < t.age := by
  have := Nat.mul_pos hn h
  rw [calls, Nat.le_div_iff_mul_le h]
  omega

def advance (t : PeriodicTask) (d : Time) : PeriodicTask :=
  if t.isActive then { t with age := t.age + d, isActive := d == 0 || t.interval != 0 }
  else t

end PeriodicTask

structure Scheduler where
  tasks : List PeriodicTask := []
  deriving DecidableEq, Repr

namespace Scheduler

def add (s : Scheduler) (interval : Time) : Scheduler :=
  ⟨s.tasks ++ [{ interval := min interval longestWait }]⟩

def advance (s : Scheduler) (d : Time) : Scheduler :=
  ⟨s.tasks.map (·.advance (min d longestWait))⟩

/-- Stops every task. -/
def shutdown (s : Scheduler) : Scheduler := ⟨s.tasks.map ({ · with isActive := false })⟩

def active (s : Scheduler) : Nat := s.tasks.countP (·.isActive)

end Scheduler

end FlowSwitch
