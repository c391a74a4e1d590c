/-!
# Tasks

A task is started, waits for one value, and goes on with it once. It can be aborted at any time
before it goes on. Neither the value nor the abort takes effect at once, but when the tasks are
next given the chance to run; an abort then wins.

* `run_of_aborted`: an aborted task goes on with nothing.
-/

namespace SpendTrace

structure Task (α : Type) where
  /-- The value handed to the task, whether it went on or not. -/
  given : Option α := none
  aborted : Bool := false
  /-- Whether the task is over. -/
  gone : Bool := false
  deriving DecidableEq, Repr

namespace Task

variable {α : Type}

/-- Whether the task still waits for its value. -/
def isWaiting (t : Task α) : Bool :=
  t.given.isNone && !t.gone

def abort (t : Task α) : Task α :=
  { t with aborted := true }

/-- Hands the task its value. The answer says whether the task was there to take it; a second value
is refused. -/
def give (t : Task α) (a : α) : Task α × Option Bool :=
  match t.given with
  | some _ => (t, none)
  | none => ({ t with given := some a }, some !t.gone)

/-- Lets the task run; it may go on with its value. -/
def run (t : Task α) : Task α × Option α :=
  if t.gone then (t, none)
  else if t.aborted then ({ t with gone := true }, none)
  else
    match t.given with
    | some a => ({ t with gone := true }, some a)
    | none => (t, none)

theorem run_of_aborted {t : Task α} (h : t.aborted = true) : t.run.2 = none := by
  cases hg : t.gone <;> simp [run, h, hg]

end Task

end SpendTrace
