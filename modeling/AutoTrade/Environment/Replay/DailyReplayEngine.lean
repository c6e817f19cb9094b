import AutoTrade.Environment.Replay.Market
import AutoTrade.Misc.Agenda

/-!
# The daily replay engine

`autotrade/environment/replay/engine.py`: each trading day opens, orders due by the
scheduled inference point are matched, the strategy is called where a decision is due,
and the rest of the day's orders are matched before the account is marked. A run keeps
the trace of what was submitted to the inbox and what every pass over it executed.
-/

namespace AutoTrade

namespace DailyReplay

open Agenda (Event)

/-- `DailyOrderInbox`: the orders not yet due, by execution time. -/
structure DailyOrderInbox where
  orders : List StrategyOrder
  sorted : orders.Pairwise fun x y => x.executeAt ≤ y.executeAt

namespace DailyOrderInbox

def empty : DailyOrderInbox := ⟨[], .nil⟩

/-- The end of `submit`, the payload validated. -/
def put (inbox : DailyOrderInbox) (orders : List StrategyOrder) : DailyOrderInbox :=
  ⟨Agenda.byTime StrategyOrder.executeAt (inbox.orders ++ orders), Agenda.sorted_byTime _⟩

/-- `take_due`: the orders due by the cutoff. -/
def due (inbox : DailyOrderInbox) (cutoff : Instant) : List StrategyOrder :=
  Agenda.due StrategyOrder.executeAt cutoff inbox.orders

/-- `take_due`: the inbox without them. -/
def withoutDue (inbox : DailyOrderInbox) (cutoff : Instant) : DailyOrderInbox :=
  ⟨Agenda.left StrategyOrder.executeAt cutoff inbox.orders, Agenda.sorted_left inbox.sorted⟩

def records (inbox : DailyOrderInbox) : List OrderRecord :=
  inbox.orders.map StrategyOrder.toRecord

end DailyOrderInbox

/-- `StrategyDataView`. -/
structure StrategyDataView where
  snapshotDir : String := ""
  asofDir : String := ""
  asofVersion : String := "0"
  deriving DecidableEq

/-- `AccountSnapshot`. -/
structure AccountSnapshot where
  cash : ℚ
  positions : Dict Symbol Int
  cash_nonneg : 0 ≤ cash

/-- `StrategyContext`, its bars the visible rows of the market. -/
structure StrategyContext (Row : Type) where
  inferenceAt : Instant
  bars : List Row
  account : AccountSnapshot
  dataView : StrategyDataView
  stateDir : String
  modelsDir : String
  pretrainedDir : String

/-- `FitSchedule`: none fits once a replay. -/
structure FitSchedule where
  refitPeriod : Option StrategyPeriod

/-- `FitSchedule.is_due`. -/
def FitSchedule.isDue (schedule : FitSchedule) (tradeDate : Nat) (lastFitDate : Option Nat) : Bool :=
  match lastFitDate, schedule.refitPeriod with
  | none, _ => true
  | some _, none => false
  | some day, some period => periodChanged period tradeDate day

/-- One call of the strategy. -/
inductive StrategyRequest (Row : Type) where
  | fit (context : StrategyContext Row)
  | generateOrders (context : StrategyContext Row)

/-- A strategy answers from every request it has had, the last one first. -/
structure Strategy (Row : Type) where
  /-- None without `fit`. -/
  fitSchedule : Option FitSchedule
  contextStateDir : String := ""
  contextModelsDir : String := ""
  contextPretrainedDir : String := ""
  /-- False when `fit` raises. -/
  fit : List (StrategyRequest Row) → Bool
  /-- None when `generate_orders` raises. -/
  generateOrders : List (StrategyRequest Row) → Option (List OrderRecord)

/-- What ends a run. -/
inductive ReplayError where
  | openDay (error : BrokerError)
  | execute (error : BrokerError)
  | accountRefused
  | fitFailed (inferenceAt : Instant)
  | generateOrdersFailed (inferenceAt : Instant) (refusal : Option OrderContractError)

/-- `AccountSnapshot(cash, positions)`. -/
def AccountSnapshot.of (cash : ℚ) (positions : List (Symbol × Int)) :
    Except ReplayError AccountSnapshot :=
  if nonneg : 0 ≤ cash then
    if positions.all fun entry => 0 ≤ entry.2 ∧ strip entry.1 ≠ "" then
      .ok ⟨cash, Dict.ofList (positions.map fun entry => (strip entry.1, entry.2)), nonneg⟩
    else .error .accountRefused
  else .error .accountRefused

/-- `DailyMarketData` with the rows it shows a decision (`visible_at`). -/
structure ReplayMarket (Row : Type) extends DailyMarketData where
  visibleAt : Instant → List Row

structure DailyReplayEngine (Row : Type) where
  schedule : StrategySchedule
  strategy : Strategy Row
  profile : BrokerProfile
  contextData : Option (Instant → StrategyDataView)
  executionPrice : ExecutionPriceProvider

/-- One row of the equity curve. -/
structure EquityPoint where
  tradeDate : Nat
  initialEquity : ℚ
  equity : ℚ
  cash : ℚ
  positions : List (Symbol × Int)

/-- A run in progress. -/
structure ReplayState (Row : Type) where
  broker : DailyBroker
  executions : List Execution := []
  inbox : DailyOrderInbox := .empty
  equityCurve : List EquityPoint := []
  inferenceDates : List Instant := []
  previousTradeDate : Option Nat := none
  lastFitDate : Option Nat := none
  requests : List (StrategyRequest Row) := []
  trace : List (Event StrategyOrder Instant) := []

/-- `ReplayResult`. -/
structure ReplayResult where
  equityCurve : List EquityPoint
  executions : List Execution
  corporateActions : List CorporateAction
  inferenceDates : List Instant
  pendingOrders : List OrderRecord

namespace DailyReplayEngine

variable {Row : Type} (engine : DailyReplayEngine Row) (market : ReplayMarket Row)

/-- One due order executed at the price it meets. -/
def executeOrder (account : DailyBroker × List Execution) (order : StrategyOrder) :
    Except ReplayError (DailyBroker × List Execution) :=
  let met := resolveExecutionPrice market.toDailyMarketData order engine.executionPrice
  match account.1.execute order met.1 order.executeAt met.2 with
  | .error e => .error (.execute e)
  | .ok (broker, execution) => .ok (broker, account.2 ++ [execution])

/-- `_match_due`. -/
def matchDue (state : ReplayState Row) (cutoff : Instant) : Except ReplayError (ReplayState Row) := do
  let due := state.inbox.due cutoff
  let account ← due.foldlM (engine.executeOrder market) (state.broker, state.executions)
  return { state with
    broker := account.1
    executions := account.2
    inbox := state.inbox.withoutDue cutoff
    trace := state.trace ++ [.pass cutoff due] }

/-- The context of one decision. -/
def contextOf (state : ReplayState Row) (inferenceAt : Instant) :
    Except ReplayError (StrategyContext Row) := do
  let snapshot := state.broker.accountSnapshot
  let account ← AccountSnapshot.of snapshot.1 snapshot.2
  let strategy := engine.strategy
  return {
    inferenceAt, account
    bars := market.visibleAt inferenceAt
    dataView := match engine.contextData with
      | none => {}
      | some contextData => contextData inferenceAt
    stateDir := strategy.contextStateDir
    modelsDir := strategy.contextModelsDir
    pretrainedDir := strategy.contextPretrainedDir }

/-- `fit` receives the context `generate_orders` gets on this day. -/
def fitDue (state : ReplayState Row) (tradeDate : Nat) (context : StrategyContext Row) :
    Except ReplayError (ReplayState Row) :=
  match engine.strategy.fitSchedule with
  | none => .ok state
  | some schedule =>
    if schedule.isDue tradeDate state.lastFitDate then
      let requests := .fit context :: state.requests
      if engine.strategy.fit requests then
        .ok { state with requests, lastFitDate := some tradeDate }
      else .error (.fitFailed context.inferenceAt)
    else .ok state

/-- The strategy's orders submitted to the inbox. -/
def submitOrders (state : ReplayState Row) (context : StrategyContext Row) :
    Except ReplayError (ReplayState Row) :=
  let requests := .generateOrders context :: state.requests
  match engine.strategy.generateOrders requests with
  | none => .error (.generateOrdersFailed context.inferenceAt none)
  | some payload =>
    match validateOrderPayload payload context.inferenceAt with
    | .error refusal => .error (.generateOrdersFailed context.inferenceAt (some refusal))
    | .ok orders => .ok { state with
        requests
        inbox := state.inbox.put orders
        trace := state.trace ++ [.add orders] }

/-- `_infer`. -/
def infer (state : ReplayState Row) (tradeDate : Nat) (inferenceAt : Instant) :
    Except ReplayError (ReplayState Row) := do
  let context ← engine.contextOf market state inferenceAt
  let fitted ← engine.fitDue state tradeDate context
  let submitted ← engine.submitOrders fitted context
  return { submitted with inferenceDates := submitted.inferenceDates ++ [inferenceAt] }

/-- The day's T+1 release and the ex-dates of held names. -/
def openDay (state : ReplayState Row) (tradeDate : Nat) : Except ReplayError (ReplayState Row) :=
  match state.broker.openDay tradeDate (market.bars tradeDate) (market.distributions tradeDate) with
  | .error e => .error (.openDay e)
  | .ok opened => .ok { state with broker := opened }

/-- The account marked at the close, and its row of the equity curve. -/
def closeDay (state : ReplayState Row) (tradeDate : Nat) : ReplayState Row :=
  let marked := state.broker.mark (market.bars tradeDate)
  let snapshot := marked.accountSnapshot
  { state with
    broker := marked
    equityCurve := state.equityCurve ++
      [⟨tradeDate, engine.profile.initialCash, marked.equity, snapshot.1, snapshot.2⟩]
    previousTradeDate := some tradeDate }

/-- The decision of a day that has one. -/
def inferIfDue (state : ReplayState Row) (tradeDate : Nat) :
    Except ReplayError (ReplayState Row) :=
  if engine.schedule.isDue tradeDate state.previousTradeDate then
    engine.infer market state tradeDate (engine.schedule.at tradeDate)
  else .ok state

/-- One trading day of `run`. -/
def tradeDay (state : ReplayState Row) (tradeDate : Nat) : Except ReplayError (ReplayState Row) := do
  let opened ← openDay market state tradeDate
  let settled ← engine.matchDue market opened (engine.schedule.at tradeDate)
  let decided ← engine.inferIfDue market settled tradeDate
  let matched ← engine.matchDue market decided (Instant.dayEnd tradeDate)
  return engine.closeDay market matched tradeDate

/-- The trading days of `run` up to some day. -/
def runDays (days : List Nat) : Except ReplayError (ReplayState Row) :=
  days.foldlM (engine.tradeDay market) { broker := DailyBroker.new engine.profile }

/-- The result of a run that has reached its last day. -/
def result (state : ReplayState Row) : ReplayResult :=
  { equityCurve := state.equityCurve
    executions := state.executions
    corporateActions := state.broker.corporateActions
    inferenceDates := state.inferenceDates
    pendingOrders := state.inbox.records }

/-- `DailyReplayEngine.run`. -/
def run : Except ReplayError ReplayResult := do
  let state ← engine.runDays market market.tradeDates
  return result state

end DailyReplayEngine

end DailyReplay

end AutoTrade
