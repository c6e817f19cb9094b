import AutoTrade.Environment.Strategy

/-!
# Return statistics

`autotrade/environment/replay/stats.py`: the return of a replay over its whole window and over
each year of it. A `YYYYMMDD` text is kept as the number it reads as; `math.sqrt` is a parameter.
-/

namespace AutoTrade

inductive StatsError where
  /-- A day outside the years. -/
  | outside (day : Nat) (windows : List (Nat × Nat))
  /-- A year that ends before it starts. -/
  | unordered (window : Nat × Nat)
  deriving DecidableEq

/-- A row of `equity_curve`. -/
structure CurveRow where
  tradeDate : Option Nat
  initialEquity : ℚ
  equity : ℚ
  deriving DecidableEq

/-- A record of `executions`. -/
structure ExecutionRecord where
  status : String
  /-- The broker's ISO text. -/
  matchedAt : String
  price : Option ℚ
  quantity : Int
  realizedPnl : Option ℚ
  deriving DecidableEq

/-- One of the `sub_windows`. -/
structure SubWindow where
  kind : String
  label : String
  start : Nat
  stop : Nat
  tradeDays : Nat
  isPartial : Bool
  return' : ℚ
  benchmarkReturn : Option ℚ
  excessReturn : Option ℚ
  sharpe : ℚ
  maxDrawdown : ℚ
  turnover : ℚ
  tradeCount : Nat
  deriving DecidableEq

namespace Stats

/-- `TRADING_DAYS_PER_YEAR`. -/
def tradingDaysPerYear : ℚ := 244

/-- `curve[0]["initial_equity"]`, of a curve. -/
def initialEquity (curve : List CurveRow) : ℚ := (curve.head?.map CurveRow.initialEquity).getD 0

/-- `total_return_from_curve`. -/
def totalReturn (curve : List CurveRow) : ℚ :=
  match curve.getLast? with
  | none => 0
  | some last => if 0 < initialEquity curve then last.equity / initialEquity curve - 1 else 0

/-- `_filled_notional`. -/
def filledNotional (order : ExecutionRecord) : ℚ :=
  match order.price with
  | none => 0
  | some price => price * order.quantity

/-- `_fill_date`: the first eight digits, where there are as many. -/
def fillDate (order : ExecutionRecord) : Option Nat :=
  let digits := order.matchedAt.toList.filter Char.isDigit
  if 8 ≤ digits.length then
    some ((digits.take 8).foldl (fun number digit => number * 10 + (digit.toNat - '0'.toNat)) 0)
  else none

def filled (orders : List ExecutionRecord) : List ExecutionRecord :=
  orders.filter (·.status = "filled")

/-- The `trade_count` of the whole window. -/
def tradeCount (orders : List ExecutionRecord) : Nat :=
  ((filled orders).filter (·.realizedPnl ≠ none)).length

/-- The `turnover` of the whole window. -/
def turnover (initial : ℚ) (orders : List ExecutionRecord) : ℚ :=
  if 0 < initial then ((filled orders).map filledNotional).sum / initial else 0

/-- The daily returns from an opening equity on, of the days that open above zero. -/
def dailyReturns : ℚ → List ℚ → List ℚ
  | _, [] => []
  | previous, equity :: rest =>
    if 0 < previous then (equity / previous - 1) :: dailyReturns equity rest
    else dailyReturns equity rest

/-- `_annualized_sharpe`. -/
def annualizedSharpe (sqrt : ℚ → ℚ) (opening : ℚ) (equities : List ℚ) : ℚ :=
  let returns := dailyReturns opening equities
  if returns.length < 2 then 0
  else
    let mean := returns.sum / returns.length
    let stdev := sqrt ((returns.map fun value => (value - mean) ^ 2).sum / (returns.length - 1))
    if 0 < stdev then mean / stdev * sqrt tradingDaysPerYear else 0

/-- `_max_drawdown`. -/
def maxDrawdown (opening : ℚ) (equities : List ℚ) : ℚ :=
  ((opening :: equities).foldl (fun ((peak, worst) : ℚ × ℚ) equity =>
    let peak := max peak equity
    (peak, if 0 < peak then max worst ((peak - equity) / peak) else worst)) (opening, 0)).2

/-- `_window_index`. -/
def windowIndex (day : Nat) (windows : List (Nat × Nat)) : Except StatsError Nat :=
  match windows.findIdx? fun window => window.1 ≤ day ∧ day ≤ window.2 with
  | some index => .ok index
  | none => .error (.outside day windows)

/-- The items of each window, every item in the one its day is placed in. -/
def byWindow {α : Type} (windows : List (Nat × Nat)) (items : List (Nat × α)) :
    Except StatsError (List (List (Nat × α))) := do
  let placed ← items.mapM fun item => do
    let index ← windowIndex item.1 windows
    return (index, item)
  return (List.range windows.length).map fun i => (placed.filter (·.1 = i)).map Prod.snd

/-- The filled orders that carry a date. -/
def datedFills (orders : List ExecutionRecord) : List (Nat × ExecutionRecord) :=
  (filled orders).filterMap fun order => (fillDate order).map (·, order)

/-- `_window_order_totals`. -/
def windowOrderTotals (orders : List ExecutionRecord) (windows : List (Nat × Nat)) :
    Except StatsError (List (ℚ × Nat)) := do
  let fills ← byWindow windows (datedFills orders)
  return fills.map fun those => ((those.map fun fill => filledNotional fill.2).sum,
    (those.filter fun fill => fill.2.realizedPnl ≠ none).length)

/-- `_window_bounds`. -/
def windowBounds (window : Nat × Nat) : Except StatsError (Nat × Nat) :=
  if window.2 < window.1 then .error (.unordered window) else .ok window

/-- `_july_year`. -/
def julyYear (day : Nat) : Nat := if 7 ≤ day / 100 % 100 then day / 10000 else day / 10000 - 1

/-- `_july_june_windows`. -/
def julyJuneWindows (first last : Nat) : List (Nat × Nat) :=
  (List.range (julyYear last + 1 - julyYear first)).map fun i =>
    ((julyYear first + i) * 10000 + 701, (julyYear first + i + 1) * 10000 + 630)

/-- The days of a curve and their equity, in order. -/
def days (curve : List CurveRow) : List (Nat × ℚ) :=
  (curve.filterMap fun row => row.tradeDate.map (·, row.equity)).mergeSort (·.1 ≤ ·.1)

/-- What `sub_window_stats` reports of the years that hold a day, in turn and before rounding. -/
def yearRows (sqrt : ℚ → ℚ) (kind : String) (initial : ℚ) (windowStart windowEnd : Nat) :
    ℚ → List ((Nat × Nat) × List (Nat × ℚ) × ℚ × Nat) → List SubWindow
  | _, [] => []
  | opening, (window, block, traded, exits) :: rest =>
    match block with
    | [] => yearRows sqrt kind initial windowStart windowEnd opening rest
    | first :: others =>
      let last := others.getLastD first
      let equities := (first :: others).map Prod.snd
      { kind := kind
        label := s!"{window.1 / 100}-{window.2 / 100}"
        start := first.1
        stop := last.1
        tradeDays := others.length + 1
        isPartial := windowStart > window.1 || windowEnd < window.2
        return' := if 0 < opening then last.2 / opening - 1 else 0
        benchmarkReturn := none
        excessReturn := none
        sharpe := annualizedSharpe sqrt opening equities
        maxDrawdown := maxDrawdown opening equities
        turnover := if 0 < initial then traded / initial else 0
        tradeCount := exits } ::
        yearRows sqrt kind initial windowStart windowEnd last.2 rest

/-- The years a replay is read in. -/
def windowsOf (yearWindows : List (Nat × Nat)) (first last : Nat) :
    Except StatsError (List (Nat × Nat)) :=
  if yearWindows ≠ [] then yearWindows.mapM windowBounds else .ok (julyJuneWindows first last)

/-- `sub_window_stats`, before rounding. -/
def exactSubWindows (sqrt : ℚ → ℚ) (curve : List CurveRow) (orders : List ExecutionRecord)
    (initial : ℚ) (start stop : Option Nat) (yearWindows : List (Nat × Nat)) :
    Except StatsError (List SubWindow) :=
  match days curve with
  | [] => .ok []
  | first :: others => do
    let last := others.getLastD first
    let windows ← windowsOf yearWindows first.1 last.1
    let buckets ← byWindow windows (first :: others)
    let totals ← windowOrderTotals orders windows
    let kind := if yearWindows ≠ [] then "research_year" else "july_june_year"
    return yearRows sqrt kind initial (start.getD first.1) (stop.getD last.1) initial
      (windows.zip (buckets.zip totals))

/-- `_round` of the figures of a year. -/
def SubWindow.rounded (row : SubWindow) : SubWindow :=
  { row with
    return' := round6 row.return'
    sharpe := round6 row.sharpe
    maxDrawdown := round6 row.maxDrawdown
    turnover := round6 row.turnover }

/-- `sub_window_stats`. -/
def subWindowStats (sqrt : ℚ → ℚ) (curve : List CurveRow) (orders : List ExecutionRecord)
    (initial : ℚ) (start stop : Option Nat) (yearWindows : List (Nat × Nat)) :
    Except StatsError (List SubWindow) := do
  let rows ← exactSubWindows sqrt curve orders initial start stop yearWindows
  return rows.map SubWindow.rounded

end Stats

end AutoTrade
