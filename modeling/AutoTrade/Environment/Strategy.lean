import AutoTrade.Common.Time
import AutoTrade.Environment.BrokerCore
import Mathlib.Algebra.Order.Round
import Mathlib.Data.Rat.Floor
import Mathlib.Tactic.NormNum

/-!
# Schedules and the order contract

`autotrade/environment/strategy.py`: when a strategy decides, and what an order
it returns must look like. An order carries the positivity of its quantity, so
one the contract refuses cannot be built.
-/

namespace AutoTrade

inductive OrderAction where
  | buy | sell
  deriving DecidableEq, Repr

/-- `OrderSession`: the opening auction, the closing auction, the day between. -/
inductive OrderSession where
  | atOpen | atClose | intraday
  deriving DecidableEq, Repr

/-- The order's own fields past the contract's, kept as their JSON texts. -/
abbrev OrderMetadata := List (String × String)

def marketOpen : Nat := (9 * 60 + 30) * microsPerMinute

def marketClose : Nat := 15 * 60 * microsPerMinute

/-- `SESSION_TIMES`. -/
def OrderSession.time : OrderSession → Nat
  | .atOpen => marketOpen
  | .atClose => marketClose
  | .intraday => marketOpen

structure StrategyOrder where
  symbol : Symbol
  action : OrderAction
  quantity : Int
  executeAt : Instant
  metadata : OrderMetadata
  session : Option OrderSession
  limitPrice : Option ℚ
  quantity_pos : 0 < quantity
  deriving DecidableEq

theorem roundLot_pos : (0 : Int) < 100 := by decide

/-- Every `StrategyContractError` the order contract raises on a typed record. -/
inductive OrderContractError where
  | emptySymbol
  | quantityNotPositive
  | beforeInference
  | sessionTimeMismatch (session : OrderSession)
  | limitPriceWithoutIntraday
  | limitPriceNotPositive
  | limitPriceNotInTicks
  deriving DecidableEq, Repr

/-- One item of the strategy's payload, its fields read at their types. -/
structure OrderRecord where
  symbol : String
  action : OrderAction
  quantity : Int
  executeAt : Instant
  metadata : OrderMetadata
  session : Option OrderSession
  limitPrice : Option ℚ
  deriving DecidableEq

/-- `str.strip()`. -/
def strip (text : String) : String :=
  String.ofList ((text.toList.dropWhile Char.isWhitespace).reverse.dropWhile
    Char.isWhitespace).reverse

/-- Python's `round(x)`: the nearest integer, a tie going to the even one. -/
def roundHalfEven (x : ℚ) : Int :=
  let below := ⌊x⌋
  let part := x - below
  if part < 1 / 2 then below
  else if 1 / 2 < part then below + 1
  else if below % 2 = 0 then below else below + 1

/-- Python's `round(x, 6)`. -/
def round6 (x : ℚ) : ℚ := roundHalfEven (x * 1000000) / 1000000

/-- `_limit_price`: positive and in whole ticks. -/
def checkedLimitPrice (value : ℚ) : Except OrderContractError ℚ := do
  if value ≤ 0 then throw .limitPriceNotPositive
  if 1 / 1000000 < |value * 100 - roundHalfEven (value * 100)| then throw .limitPriceNotInTicks
  return value

namespace StrategyOrder

/-- `StrategyOrder.from_record`. -/
def fromRecord (value : OrderRecord) (inferenceAt : Instant) :
    Except OrderContractError StrategyOrder := do
  let symbol := strip value.symbol
  if symbol = "" then throw .emptySymbol
  if positive : 0 < value.quantity then
    if value.executeAt < inferenceAt then throw .beforeInference
    match value.session with
    | some session =>
      if value.executeAt.micros ≠ session.time then throw (.sessionTimeMismatch session)
    | none => pure ()
    let limitPrice ← match value.limitPrice with
      | none => pure none
      | some limit =>
        if value.session ≠ some .intraday then throw .limitPriceWithoutIntraday
        else some <$> checkedLimitPrice limit
    return { symbol, action := value.action, quantity := value.quantity,
             executeAt := value.executeAt, metadata := value.metadata,
             session := value.session, limitPrice, quantity_pos := positive }
  else throw .quantityNotPositive

/-- `StrategyOrder.to_record`. -/
def toRecord (order : StrategyOrder) : OrderRecord :=
  { symbol := order.symbol, action := order.action, quantity := order.quantity,
    executeAt := order.executeAt, metadata := order.metadata, session := order.session,
    limitPrice := order.limitPrice }

end StrategyOrder

/-- `validate_order_payload`: every order of the payload, or the first refusal. -/
def validateOrderPayload (payload : List OrderRecord) (inferenceAt : Instant) :
    Except OrderContractError (List StrategyOrder) :=
  payload.mapM fun record => StrategyOrder.fromRecord record inferenceAt

inductive StrategyPeriod where
  | day | month | quarter | year
  deriving DecidableEq, Repr

/-- `period_changed`. -/
def periodChanged (period : StrategyPeriod) (tradeDate previous : Nat) : Bool :=
  match period with
  | .day => tradeDate ≠ previous
  | .month => tradeDate / 100 ≠ previous / 100
  | .quarter => (tradeDate / 10000, (tradeDate / 100 % 100 - 1) / 3) ≠
      (previous / 10000, (previous / 100 % 100 - 1) / 3)
  | .year => tradeDate / 10000 ≠ previous / 10000

/-- `StrategySchedule`, its inference time as the minute of the day. -/
structure StrategySchedule where
  period : StrategyPeriod
  inferenceMinute : Nat
  inferenceMinute_lt : inferenceMinute < 24 * 60
  deriving DecidableEq

/-- `StrategySchedule.at`. -/
def StrategySchedule.at (schedule : StrategySchedule) (tradeDate : Nat) : Instant :=
  Instant.atMinute tradeDate schedule.inferenceMinute schedule.inferenceMinute_lt

/-- `StrategySchedule.is_due`. -/
def StrategySchedule.isDue (schedule : StrategySchedule) (tradeDate : Nat)
    (previous : Option Nat) : Bool :=
  match previous with
  | none => true
  | some day => periodChanged schedule.period tradeDate day

end AutoTrade
