import AutoTrade.Common.Dates
import AutoTrade.Common.Time
import Mathlib.Data.Rat.Defs

/-!
# Individual dividend tax

`autotrade/environment/dividend_tax.py`. The record date selects the rule, the
holding period from the buy to the sale selects its final rate. Money is exact:
a float of the source is read as the rational it stands for.
-/

namespace AutoTrade

/-- The `ValueError`s of the module. -/
inductive DividendTaxError where
  /-- The text is no `YYYYMMDD` calendar date. -/
  | invalidDate (day : Option Nat)
  /-- The record date predates the supported 2013 rules. -/
  | unsupportedRecordDate (recordDate : Nat)
  /-- Shares cannot be sold on or before the day they were acquired. -/
  | soldBeforeAcquired (acquired sold : Nat)
  deriving DecidableEq, Repr

def bonusSharePar : ℚ := 1

def dividendTaxCutover : Nat := 20150908

structure DividendTaxRule where
  key : String
  withholdingRate : ℚ
  /-- Holding tiers in months with their rates, shortest first. -/
  tiers : List (Nat × ℚ)
  rateBeyond : ℚ
  deriving DecidableEq, Repr

def holdingTiers : List (Nat × ℚ) := [(1, 20 / 100), (12, 10 / 100)]

def oldRule : DividendTaxRule := ⟨"2012_85", 5 / 100, holdingTiers, 5 / 100⟩

def newRule : DividendTaxRule := ⟨"2015_101", 0, holdingTiers, 0⟩

/-- `_day`: eight digits that name a calendar date. -/
def parseDay (day : Option Nat) : Except DividendTaxError Nat :=
  match day with
  | none => .error (.invalidDate none)
  | some d =>
    if validDate (d / 10000) (d / 100 % 100) (d % 100) then .ok d
    else .error (.invalidDate (some d))

/-- `_months_later`: the same day so many months later, or the first of the next
month when that day is absent. -/
def monthsLater (day : Nat) (months : Nat) : Nat :=
  let total := day / 10000 * 12 + (day / 100 % 100 - 1) + months
  let year := total / 12
  let month := total % 12
  if validDate year (month + 1) (day % 100) then dateNumber year (month + 1) (day % 100)
  else dateNumber (year + (month + 1) / 12) ((month + 1) % 12 + 1) 1

/-- `dividend_tax_rule`. -/
def dividendTaxRule (recordDate : Option Nat) : Except DividendTaxError DividendTaxRule := do
  let day ← parseDay recordDate
  if day < 20130101 then throw (.unsupportedRecordDate day)
  return if day < dividendTaxCutover then oldRule else newRule

/-- The first tier the sale falls into, else the rate beyond them. -/
def tierRate (start sale : Nat) (beyond : ℚ) : List (Nat × ℚ) → ℚ
  | [] => beyond
  | (months, rate) :: rest =>
    if sale ≤ monthsLater start months then rate else tierRate start sale beyond rest

/-- `dividend_tax_rate`. -/
def dividendTaxRate (acquired sold : Nat) (rule : DividendTaxRule) :
    Except DividendTaxError ℚ := do
  let start ← parseDay (some acquired)
  let sale ← parseDay (some sold)
  if sale ≤ start then throw (.soldBeforeAcquired acquired sold)
  return tierRate start sale rule.rateBeyond rule.tiers

/-- One summand of `dividend_tax_due`; no income asks for no rate. -/
def supplementDue (acquired sold : Nat) (rule : DividendTaxRule) (income : ℚ) :
    Except DividendTaxError ℚ :=
  if income = 0 then .ok 0
  else do
    let rate ← dividendTaxRate acquired sold rule
    return income * (rate - rule.withholdingRate)

/-- `dividend_tax_due`: the supplement a sale owes. -/
def dividendTaxDue (acquired sold : Nat) (oldIncome newIncome : ℚ) :
    Except DividendTaxError ℚ := do
  let old ← supplementDue acquired sold oldRule oldIncome
  let new ← supplementDue acquired sold newRule newIncome
  return old + new

/-- A leap day held one month is taxed at the first tier through 29 March. -/
example : dividendTaxRate 20240229 20240329 newRule = .ok (20 / 100) := by decide +kernel

end AutoTrade
