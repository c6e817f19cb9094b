import Mathlib.Data.List.Basic

/-!
# Board and lot rules

`autotrade/environment/broker_core.py`: the board a code is listed on, the
declaration ladder a buy must respect, and the odd-lot rule of a sale.
-/

namespace AutoTrade

/-- A stock code such as `600000.SH`. -/
abbrev Symbol := String

def lotSize : Int := 100

def starMinLotSize : Int := 200

/-- Sell-side stamp duty halves from this date on. -/
def stampDutyCutover : Nat := 20230828

/-- `BOARDS`, in the vocabulary's order. -/
inductive Board where
  | main | gem | star | bj
  deriving DecidableEq, Repr

/-- `BOARD_PREFIXES`; a Beijing name is told by its suffix instead. -/
def Board.prefixes : Board → List String
  | .main => ["600", "601", "603", "605", "000", "001", "002", "003"]
  | .gem => ["300", "301", "302"]
  | .star => ["688", "689"]
  | .bj => []

def boards : List Board := [.main, .gem, .star, .bj]

/-- `board_of`: `none` for a code on none of the boards. -/
def boardOf (symbol : Symbol) : Option Board :=
  let code := symbol.toUpper
  if code.endsWith ".BJ" then some .bj
  else boards.find? fun board => board.prefixes.any fun p => code.startsWith p

def isStarMarket (symbol : Symbol) : Bool :=
  let code := symbol.toUpper
  code.endsWith ".SH" && (code.startsWith "688" || code.startsWith "689")

def isBseMarket (symbol : Symbol) : Bool := symbol.toUpper.endsWith ".BJ"

/-- Whether `validate_buy_lot` accepts the quantity: STAR from 200 shares and
Beijing from 100 in single shares, every other board in whole lots. -/
def validBuyLot (quantity : Int) (symbol : Symbol) : Bool :=
  if isStarMarket symbol then decide (starMinLotSize ≤ quantity)
  else if isBseMarket symbol then decide (lotSize ≤ quantity)
  else decide (quantity % lotSize = 0)

/-- The refusals of `reduce_amount_reject`. -/
inductive ReduceReject where
  | amountBelowLotSize | amountNotLotAligned
  deriving DecidableEq, Repr

/-- `reduce_amount_reject`: a sale declares whole lots, or exactly the odd tail
of what can be sold; a STAR or Beijing holding below the minimum declaration
leaves only in full. -/
def reduceAmountReject (shares sellable : Int) (symbol : Symbol) : Option ReduceReject :=
  if isStarMarket symbol then
    if starMinLotSize ≤ shares ∨ shares = sellable then none else some .amountBelowLotSize
  else if isBseMarket symbol then
    if lotSize ≤ shares ∨ shares = sellable then none else some .amountBelowLotSize
  else if shares % lotSize = 0 then none
  else
    let odd := sellable % lotSize
    if odd ≠ 0 ∧ shares % lotSize = odd ∧ shares ≤ sellable then none
    else if lotSize ≤ shares then some .amountNotLotAligned else some .amountBelowLotSize

end AutoTrade
