import AutoTrade.Environment.Broker
import AutoTrade.Environment.Replay.MarketFrame

/-!
# The distributions of each ex-date

`_distributions_by_ex_date` of `autotrade/environment/replay/market.py` and
`autotrade/environment/distributions.py`.
-/

namespace AutoTrade

namespace Replay

/-- The `ValueError`s of a dividend table. -/
inductive ActionsError where
  | missingColumns (missing : List String)
  | invalidExDate (value : Text)
  | invalidAmount (column : String) (symbol : Text) (exDate : Nat)
  /-- `invalid dividend record_date`, for the reason given. -/
  | invalidRecordDate (symbol : Text) (exDate : Nat) (reason : ActionsError)
  | invalidDate (value : Text)
  | dividendTax (error : DividendTaxError)
  | conflictingRecordDates (dates : List Nat)
  deriving DecidableEq

/-- `distribution_record_date`. -/
def distributionRecordDate (dates : List Nat) : Except ActionsError Nat :=
  match dates.dedup with
  | [value] => do
    let _ ← (dividendTaxRule (some value)).mapError .dividendTax
    return value
  | values => .error (.conflictingRecordDates (values.insertionSort (· ≤ ·)))

/-- A row of a dividend table as it is read. -/
structure Dividend where
  symbol : Text
  exDate : Nat
  cash : ℚ
  bonus : ℚ
  recordDate : Option Nat
  deriving DecidableEq

variable {Value : Type}

def exDateColumn : String := "ex_date"

def cashColumn : String := "cash_per_share"

def bonusColumn : String := "bonus_per_share"

def recordDateColumn : String := "record_date"

def symbolColumn (columns : List String) : String :=
  if "symbol" ∈ columns then "symbol" else "ts_code"

def missingActionColumns (columns : List String) : List String :=
  [symbolColumn columns, exDateColumn, cashColumn].filter fun column => column ∉ columns

/-- A value as an amount: finite, and not negative. -/
def amountOf (source : FrameSource Value) (value : Value) : Option ℚ :=
  match source.float value with
  | some (.finite amount) => if amount < 0 then none else some amount
  | _ => none

/-- A turn of the loop over the two amounts of a row; an absent column is 0.0. -/
def readAmount (source : FrameSource Value) (columns : List String) (row : String → Value)
    (symbol : Text) (exDate : Nat) (column : String) : Except ActionsError ℚ :=
  if column ∈ columns then
    match amountOf source (row column) with
    | some amount => .ok amount
    | none => .error (.invalidAmount column symbol exDate)
  else .ok 0

/-- `str(row.get("record_date"))`. -/
def recordDateText (source : FrameSource Value) (columns : List String) (row : String → Value) :
    Text :=
  if recordDateColumn ∈ columns then source.str (row recordDateColumn)
  else "None".toList

/-- The record date a taxable row has to name. -/
def readRecordDate (source : FrameSource Value) (columns : List String) (row : String → Value) :
    Except ActionsError Nat :=
  match dateText source (recordDateText source columns row) with
  | some date => distributionRecordDate [date]
  | none => .error (.invalidDate (recordDateText source columns row))

/-- The record date of a row that pays `cash` and `bonus`. -/
def recordDateOf (source : FrameSource Value) (columns : List String) (row : String → Value)
    (symbol : Text) (exDate : Nat) (cash bonus : ℚ) : Except ActionsError (Option Nat) :=
  if cash ≠ 0 ∨ bonus ≠ 0 then
    ((readRecordDate source columns row).mapError (.invalidRecordDate symbol exDate)).map some
  else .ok none

/-- What the loop reads of a row before it adds it. -/
def readDividend (source : FrameSource Value) (columns : List String) (row : String → Value) :
    Except ActionsError Dividend := do
  let symbol := symbolText (source.str (row (symbolColumn columns)))
  let some exDate := dateText source (source.str (row exDateColumn))
    | throw (.invalidExDate (source.str (row exDateColumn)))
  let cash ← readAmount source columns row symbol exDate cashColumn
  let bonus ← readAmount source columns row symbol exDate bonusColumn
  let recordDate ← recordDateOf source columns row symbol exDate cash bonus
  return { symbol, exDate, cash, bonus, recordDate }

/-- What is distributed on each ex-date, by symbol. -/
abbrev ExDates : Type := Dict Nat (Dict Text Distribution)

/-- The record date of a row, checked against the one the rows before it left. -/
def checkedRecordDate : Option Nat → Option Nat → Except ActionsError (Option Nat)
  | some date, some before => (distributionRecordDate [date, before]).map some
  | date, _ => .ok date

/-- The rest of the loop's body. -/
def addDividend (hasBonus : Bool) (out : ExDates) (row : Dividend) :
    Except ActionsError ExDates := do
  let day := (out.get? row.exDate).getD Dict.empty
  let previous := (day.get? row.symbol).getD
    { bonusPerShare := if hasBonus then some 0 else none }
  let recordDate ← checkedRecordDate row.recordDate previous.recordDate
  return out.set row.exDate (day.set row.symbol
    { cashPerShare := previous.cashPerShare + row.cash
      bonusPerShare := if hasBonus then some (previous.bonusPerShare.getD 0 + row.bonus) else none
      recordDate := recordDate.orElse fun _ => previous.recordDate })

/-- `_distributions_by_ex_date`. -/
def distributionsByExDate (source : FrameSource Value) (actions : Option (Frame Value)) :
    Except ActionsError ExDates :=
  match actions with
  | none => .ok Dict.empty
  | some actions =>
    if missingActionColumns actions.columns ≠ [] then
      .error (.missingColumns (missingActionColumns actions.columns))
    else
      actions.rows.foldlM
        (fun out row => readDividend source actions.columns row >>=
          addDividend (bonusColumn ∈ actions.columns) out)
        Dict.empty

/-- `distributions_for_day`, of one symbol. -/
def distributionOf (out : ExDates) (day : Nat) (symbol : Text) : Option Distribution :=
  (out.get? day).bind fun events => events.get? symbol

end Replay

end AutoTrade
