import AutoTrade.Environment.Broker

/-!
# The market a session trades on

`autotrade/environment/replay/market.py` as the broker reads it: the bars and
the ex-date distributions of each trading day, and the price an order meets
(`resolve_execution_price` of `replay/engine.py`).
-/

namespace AutoTrade

/-- `DailyMarketData`: `bars_for_day` and `distributions_for_day`. A day
outside the frame has no bars. -/
structure DailyMarketData where
  tradeDates : List Nat
  bars : Nat → Symbol → Option Bar
  distributions : Nat → Symbol → Distribution
  sorted : tradeDates.Pairwise (· < ·)
  bars_eq_none : ∀ day, day ∉ tradeDates → ∀ symbol, bars day symbol = none

/-- `cash_dividends_for_day`: the cash dividend per share of a name that goes ex on a day. -/
def DailyMarketData.cashDividends (market : DailyMarketData) (day : Nat) (symbol : Symbol) : ℚ :=
  (market.distributions day symbol).cashPerShare

/-- `ExecutionPriceProvider`: the static price source for a minute that is
neither the open nor the close. -/
abbrev ExecutionPriceProvider := Symbol → Instant → Option ℚ

/-- `resolve_execution_price`: the order's trading-day bar and the market price
it meets. -/
def resolveExecutionPrice (market : DailyMarketData) (order : StrategyOrder)
    (executionPrice : ExecutionPriceProvider) : Option Bar × Option ℚ :=
  let bar := market.bars order.executeAt.day order.symbol
  match order.session with
  | some session => (bar, bar.bind (sessionPrice session order))
  | none =>
    if order.executeAt.micros = marketOpen then (bar, bar.bind Bar.opening)
    else if order.executeAt.micros = marketClose then (bar, bar.bind Bar.close)
    else (bar, executionPrice order.symbol order.executeAt)

end AutoTrade
