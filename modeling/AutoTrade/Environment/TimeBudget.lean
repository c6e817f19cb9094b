import Mathlib.Algebra.Order.Group.Defs

/-!
# The time budget of an Agent session

`autotrade/environment/time_budget.py`. Times are of any ordered group; an operation is given
what the clock reads each time it asks.
-/

namespace AutoTrade

inductive TimeBudgetError where
  /-- Not exactly one of a duration and a deadline. -/
  | target
  | duration
  /-- `TimeoutError`. -/
  | exceeded
  /-- `AssertionError`. -/
  | notPaused
  deriving DecidableEq

/-- `InferenceTimeBudget`. -/
structure InferenceTimeBudget (T : Type) where
  deadline : T
  pauseDepth : Nat
  pauseStarted : Option T

namespace InferenceTimeBudget

variable {T : Type} [AddCommGroup T] [LinearOrder T]

/-- `__init__`. -/
def make (duration deadline : Option T) (now : T) :
    Except TimeBudgetError (InferenceTimeBudget T) :=
  match duration, deadline with
  | some seconds, none =>
    if seconds ≤ 0 then .error .duration else .ok ⟨now + seconds, 0, none⟩
  | none, some target => .ok ⟨target, 0, none⟩
  | _, _ => .error .target

variable (b : InferenceTimeBudget T)

/-- `deadline`: the pause in progress included. -/
def deadlineAt (now : T) : T :=
  match b.pauseStarted with
  | some started => b.deadline + max 0 (now - started)
  | none => b.deadline

def remaining (now : T) : T := b.deadline - b.pauseStarted.getD now

def check (now : T) : Except TimeBudgetError Unit :=
  if b.remaining now ≤ 0 then .error .exceeded else .ok ()

/-- `pause`, up to its `yield`: the clock is read by the check, and again when no pause is
open. -/
def enter (checked started : T) : Except TimeBudgetError (InferenceTimeBudget T) := do
  b.check checked
  return { b with
    pauseStarted := if b.pauseDepth = 0 then some started else b.pauseStarted
    pauseDepth := b.pauseDepth + 1 }

/-- `pause`, its `finally`. -/
def exit (now : T) : Except TimeBudgetError (InferenceTimeBudget T) :=
  if b.pauseDepth - 1 = 0 then
    match b.pauseStarted with
    | some started => .ok ⟨b.deadline + max 0 (now - started), 0, none⟩
    | none => .error .notPaused
  else .ok { b with pauseDepth := b.pauseDepth - 1 }

end InferenceTimeBudget

end AutoTrade
