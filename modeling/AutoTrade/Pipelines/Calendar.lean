import AutoTrade.Common.Dates

/-!
# The research calendar

`autotrade/pipelines/calendar.py`: the dates of an experiment's research years,
of its forward period and of Held-out, and the steps its validation years are
tested in. A `YYYYMMDD` text is kept as the number it reads as, which orders as
the text does.
-/

namespace AutoTrade

/-- What the calendar refuses, and the dates it names. -/
inductive CalendarError where
  | notADate (name : String) (value : Nat)
  /-- `OverflowError`, or a year that `date` does not have. -/
  | outOfRange
  | stepLength (months : Int)
  | notWholeMonths (start stop : Nat)
  | unevenSteps (start stop span : Nat) (months : Int)
  | notWholeYears (researchStart researchEnd : Nat)
  | wrongForwardEnd (expected researchEnd forwardEnd : Nat)
  | heldoutBeforeForward (heldoutEnd forwardEnd : Nat)
  | researchYears (given : Int) (years : Nat)
  | noTradingDays
  | shortHeldout (last count heldoutStart heldoutEnd : Nat)
  | noSuchStep (step : Int) (count : Nat)
  deriving DecidableEq

namespace Calendar

/-- `date.fromisoformat`, and the parameter its error names. -/
def fromIsoFormat (name : String) (value : Nat) : Except CalendarError Date :=
  match Date.ofNumber? value with
  | some d => .ok d
  | none => .error (.notADate name value)

/-- A date, or the `OverflowError` or `ValueError` of its making. -/
def inRange (d : Option Date) : Except CalendarError Date :=
  match d with
  | some d => .ok d
  | none => .error .outOfRange

/-- `_plus_years`. -/
def plusYears (monthStart : Date) (years : Nat) : Except CalendarError Date :=
  inRange (Date.of? (monthStart.year + years) monthStart.month 1)

/-- `_plus_months`. -/
def plusMonths (monthStart : Date) (months : Nat) : Except CalendarError Date :=
  let index := monthStart.year * 12 + (monthStart.month - 1) + months
  inRange (Date.of? (index / 12) (index % 12 + 1) 1)

/-- `_next_day`. -/
def nextDay (name : String) (day : Nat) : Except CalendarError Nat := do
  let d ← fromIsoFormat name day
  let next ← inRange d.next?
  return next.number

/-- A window from one first of a month to the day before another. -/
def windowBefore (opened closing : Date) : Except CalendarError (Nat × Nat) := do
  let closed ← inRange closing.previous?
  return (opened.number, closed.number)

/-- `step_windows`. -/
def stepWindows (start stop : Nat) (months : Int) : Except CalendarError (List (Nat × Nat)) := do
  if months < 1 then throw (.stepLength months)
  let first ← fromIsoFormat "start" start
  let last ← fromIsoFormat "end" stop
  let after ← inRange last.next?
  if first.day ≠ 1 ∨ after.day ≠ 1 ∨ after ≤ first then throw (.notWholeMonths start stop)
  let span := after.year * 12 + after.month - (first.year * 12 + first.month)
  if span % months.toNat ≠ 0 then throw (.unevenSteps start stop span months)
  (List.range (span / months.toNat)).mapM fun index => do
    let opened ← plusMonths first (index * months.toNat)
    let closing ← plusMonths first ((index + 1) * months.toNat)
    windowBefore opened closing

/-- `ResearchGeometry.__post_init__`. -/
def postInit (researchStart researchEnd forwardEnd heldoutEnd : Nat) :
    Except CalendarError Unit := do
  let start ← fromIsoFormat "research_start" researchStart
  let last ← fromIsoFormat "research_end" researchEnd
  let _ ← fromIsoFormat "forward_end" forwardEnd
  let _ ← fromIsoFormat "heldout_end" heldoutEnd
  let anniversary ← inRange last.next?
  if start.day ≠ 1 ∨ anniversary.day ≠ 1 ∨ anniversary.month ≠ start.month ∨
      anniversary.year ≤ start.year then
    throw (.notWholeYears researchStart researchEnd)
  let closing ← plusYears anniversary 1
  let expected ← inRange closing.previous?
  if forwardEnd ≠ expected.number then
    throw (.wrongForwardEnd expected.number researchEnd forwardEnd)
  if heldoutEnd ≤ forwardEnd then throw (.heldoutBeforeForward heldoutEnd forwardEnd)

end Calendar

open Calendar

/-- `Slot`, its dates as numbers. -/
structure Slot where
  label : String
  start : Nat
  stop : Nat
  /-- The configured end. -/
  requestedEnd : Nat
  deriving DecidableEq

/-- `ResearchGeometry`. -/
structure ResearchGeometry where
  researchStart : Nat
  researchEnd : Nat
  forwardEnd : Nat
  heldoutEnd : Nat
  checked : postInit researchStart researchEnd forwardEnd heldoutEnd = .ok ()

/-- `MIN_REGRESSION_DAYS`. -/
def minRegressionDays : Nat := 8

namespace ResearchGeometry

variable (g : ResearchGeometry)

def forwardStart : Except CalendarError Nat := nextDay "research_end" g.researchEnd

def heldoutStart : Except CalendarError Nat := nextDay "forward_end" g.forwardEnd

/-- `research_years`. -/
def researchYears : Except CalendarError (List Slot) := do
  let start ← fromIsoFormat "research_start" g.researchStart
  let anniversary ← fromIsoFormat "forward_start" (← g.forwardStart)
  (List.range (anniversary.year - start.year)).mapM fun index => do
    let opened ← plusYears start index
    let closing ← plusYears start (index + 1)
    let window ← windowBefore opened closing
    return ⟨s!"Y{index + 1}", window.1, window.2, window.2⟩

/-- `split_research`. -/
def splitResearch (researchYears : Int) : Except CalendarError (List Slot × List Slot) := do
  let years ← g.researchYears
  if researchYears < 1 ∨ (years.length : Int) ≤ researchYears then
    throw (.researchYears researchYears years.length)
  return (years.take researchYears.toNat, years.drop researchYears.toNat)

def forward : Except CalendarError Slot := do
  return ⟨"F", ← g.forwardStart, g.forwardEnd, g.forwardEnd⟩

/-- `heldout`: the end clipped to the last trading day of the release. -/
def heldout (tradingDays : List Nat) : Except CalendarError Slot :=
  match tradingDays.max? with
  | none => .error .noTradingDays
  | some last => do
    let stop := min g.heldoutEnd last
    let start ← g.heldoutStart
    let count := (tradingDays.filter fun day => start ≤ day ∧ day ≤ stop).length
    if count < minRegressionDays then throw (.shortHeldout last count start g.heldoutEnd)
    return ⟨"H", start, stop, g.heldoutEnd⟩

end ResearchGeometry

/-- `ValidationSteps.of` of `autotrade/pipelines/validation_record.py`: the test horizon before
any test, and the steps of the validation years. -/
def validationSteps (first : Slot) (later : List Slot) (stepMonths : Int) :
    Except CalendarError (Nat × List (Nat × Nat)) := do
  let stop := ((first :: later).getLast (List.cons_ne_nil _ _)).stop
  let windows ← stepWindows first.start stop stepMonths
  let start ← fromIsoFormat "start" first.start
  let opening ← inRange start.previous?
  return (opening.number, windows)

end AutoTrade
