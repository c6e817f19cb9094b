import AutoTrade.Environment.Replay.Market
import AutoTrade.Paper.Corrections

/-!
# The Paper engine

`autotrade/paper/engine.py`: one run of a book settles every earlier session
that has landed and decides its own. The book is what the run finds on disk and
leaves there: the checkpointed state, the journals and the owner's records.
`Live` is a run in progress, whose state, broker and pending orders are still
in memory.
-/

namespace AutoTrade

/-- A row of `equity_daily.jsonl`. -/
structure EquityRow where
  tradeDate : Nat
  equity : ℚ
  cash : ℚ
  positionCount : Nat
  simulatedEquity : Option ℚ := none
  deriving DecidableEq

/-- A queued journal row with the file it goes to. -/
inductive Emission where
  | corporateAction (day : Nat) (action : CorporateAction)
  | simulatedExecution (day : Nat) (execution : Execution)
  | execution (day : Nat) (row : ExecutionRow)
  | correction (row : CorrectionRow)
  | equity (row : EquityRow)
  | order (day : Nat) (record : OrderRecord)
  deriving DecidableEq

/-- The journal an emission is appended to. -/
def Emission.name : Emission → String
  | .corporateAction day _ => s!"corporate_actions_{day}.jsonl"
  | .simulatedExecution day _ => s!"simulated_executions_{day}.jsonl"
  | .execution day _ => s!"executions_{day}.jsonl"
  | .correction _ => "corrections.jsonl"
  | .equity _ => "equity_daily.jsonl"
  | .order day _ => s!"orders_{day}.jsonl"

/-- The ex-dates the journals hold, each with the day its file is named after. -/
def corporateHistory (journal : List Emission) : List (Nat × CorporateAction) :=
  journal.filterMap fun
    | .corporateAction day action => some (day, action)
    | _ => none

/-- An account as a strategy sees it (`AccountSnapshot`). -/
abbrev AccountSnapshot := ℚ × List (Symbol × Int)

/-- `_account_record`. -/
structure AccountRecord where
  cash : ℚ
  currentDay : Option Nat
  positions : Dict Symbol Position
  lots : Dict Symbol (List Lot)
  deriving DecidableEq

def accountRecord (b : DailyBroker) : AccountRecord :=
  { cash := b.cash, currentDay := b.currentDay, positions := DailyBroker.sortedDict b.positions,
    lots := b.lotRecords }

/-- One row of `state["decisions"]`. -/
structure Decision where
  tradeDate : Nat
  inferenceAt : Instant
  decidedAt : Instant
  account : AccountSnapshot
  equity : ℚ
  deriving DecidableEq

/-- `.paper_state.json`. -/
structure PaperState where
  startDate : Option Nat
  settledThrough : Option Nat
  decisions : List Decision
  pendingOrders : List OrderRecord
  account : Option AccountRecord
  emissions : List Emission
  realFills : Option Mode

/-- `_new_state`. -/
def PaperState.new : PaperState :=
  { startDate := none, settledThrough := none, decisions := [], pendingOrders := [],
    account := none, emissions := [], realFills := none }

/-- What stops a run. -/
inductive PaperError where
  | restore (error : BrokerError)
  | restoreOrders (error : OrderContractError)
  | decidedLater (last : Nat)
  | notBegun (tradeDate : Nat)
  | awaitingFills (sessions : List Nat)
  | dataFactory
  | notASession (tradeDate : Nat)
  | dataNotReady (releaseEnd : Nat) (prior : Option Nat)
  | noDailyBars (day : Nat)
  | neverDecided (day : Nat)
  | openDay (error : BrokerError)
  | execute (error : BrokerError)
  | cannotSettle (day : Nat) (error : FillsError)
  | decisionRefused
  | strategyFailed (inferenceAt : Instant)
  | contract (error : OrderContractError)
  deriving DecidableEq

/-- `PaperData`: one run's market and sessions. -/
structure PaperData where
  market : DailyMarketData
  sessions : List Nat
  releaseEnd : Nat
  executionPrice : ExecutionPriceProvider
  sorted : sessions.Pairwise (· < ·)

/-- `post_hoc_sessions`: the sessions decided only after their own calendar day. -/
def postHocSessions (decisions : List Decision) : List Nat :=
  (decisions.filter fun row => row.tradeDate < row.decidedAt.day).map Decision.tradeDate

/-- `_restore_broker`. -/
def restoreBroker (profile : BrokerProfile) : Option AccountRecord → Except PaperError DailyBroker
  | none => .ok (DailyBroker.new profile)
  | some account =>
    let b := { DailyBroker.new profile with
      cash := account.cash, positions := account.positions, currentDay := account.currentDay }
    match b.restoreLots account.lots with
    | .error e => .error (.restore e)
    | .ok b => .ok b

/-- `pending.sort(key=execute_at)`: the sort is stable. -/
def sortPending (orders : List StrategyOrder) : List StrategyOrder :=
  orders.insertionSort fun x y => x.executeAt ≤ y.executeAt

/-- `_restore_orders`. -/
def restoreOrders (records : List OrderRecord) : Except PaperError (List StrategyOrder) :=
  match records.mapM fun record => StrategyOrder.fromRecord record record.executeAt with
  | .error e => .error (.restoreOrders e)
  | .ok orders => .ok (sortPending orders)

/-- `adopt`: the switch never reaches back into a session already settled. -/
def adopt (state : PaperState) (records : Records) : PaperState :=
  if records.enabled ∧ state.realFills.isNone then
    { state with realFills := some ⟨state.settledThrough, Dict.empty⟩ }
  else state

/-- `unresolved`: the real-fill sessions before `before` with an order that has
no outcome. -/
def unresolved (mode : Mode) (late : List Nat) (records : Records) (orders : List StrategyOrder)
    (before : Nat) : List Nat :=
  (orders.filter fun order =>
    mode.covers (orderSession order) ∧ orderSession order < before ∧
      (resolve records (orderSession order) (orderKey order) true
        (orderSession order ∈ late)).isNone).map orderSession

/-- A run in progress: what is in memory, and the journals. -/
structure Live where
  state : PaperState
  broker : DailyBroker
  pending : List StrategyOrder
  journal : List Emission

namespace Live

def queue (live : Live) (emissions : List Emission) : Live :=
  { live with state := { live.state with emissions := live.state.emissions ++ emissions } }

/-- `_reconcile_emissions`: every queued row joins its journal. -/
def reconcile (live : Live) : Live :=
  { live with
    journal := live.journal ++ live.state.emissions
    state := { live.state with emissions := [] } }

/-- `_checkpoint`. -/
def checkpoint (live : Live) : Live :=
  { live with state := { live.state with
      account := some (accountRecord live.broker)
      pendingOrders := live.pending.map StrategyOrder.toRecord } }

end Live

/-- One due order executed at the price it meets. -/
def executeOrder (data : PaperData) (b : DailyBroker) (order : StrategyOrder) :
    Except BrokerError (DailyBroker × Execution) :=
  let met := resolveExecutionPrice data.market order data.executionPrice
  b.execute order met.1 order.executeAt met.2

/-- One due order executed by the simulator. -/
def executeDue (data : PaperData) (s : DailyBroker × List Simulated) (order : StrategyOrder) :
    Except BrokerError (DailyBroker × List Simulated) :=
  (executeOrder data s.1 order).map fun executed => (executed.1, s.2 ++ [(order, executed.2)])

/-- The due orders executed on `b` as the simulator fills them. -/
def executeAll (data : PaperData) (b : DailyBroker) (due : List StrategyOrder) :
    Except BrokerError (DailyBroker × List Simulated) :=
  due.foldlM (executeDue data) (b, [])

/-- The middle of `_settle`: the account after the day's fills, the mode, the
rows queued for them and the simulated equity of a real-fill session. -/
structure DayFills where
  broker : DailyBroker
  realFills : Option Mode
  emissions : List Emission
  simulatedEquity : Option ℚ

/-- The day's fills from the simulator alone. -/
def fillSimulated (data : PaperData) (b : DailyBroker) (realFills : Option Mode) (day : Nat)
    (due : List StrategyOrder) : Except PaperError DayFills :=
  match executeAll data b due with
  | .error e => .error (.execute e)
  | .ok (filled, simulated) =>
    .ok { broker := filled, realFills
          emissions := simulated.map fun x => .execution day { execution := x.2 }
          simulatedEquity := none }

/-- The day's fills from the owner's records: the simulator fills a copy of the
morning account, the account itself takes what was recorded. -/
def fillRecorded (records : Records) (late : List Nat) (journal : List Emission)
    (data : PaperData) (b : DailyBroker) (mode : Mode) (day : Nat) (due : List StrategyOrder) :
    Except PaperError DayFills :=
  match executeAll data b due with
  | .error e => .error (.execute e)
  | .ok (simulator, simulated) =>
    match settleRecorded records late (corporateHistory journal) b mode day simulated with
    | .error e => .error (.cannotSettle day e)
    | .ok settled =>
      .ok { broker := settled.broker
            realFills := some settled.mode
            emissions := simulated.map (fun x => .simulatedExecution day x.2) ++
              settled.corrections.map .correction ++ settled.rows.map (.execution day)
            simulatedEquity := some (simulator.mark (data.market.bars day)).equity }

/-- The day's fills, from the owner's records where the book follows them. -/
def fillDay (records : Records) (data : PaperData) (live : Live) (opened : DailyBroker) (day : Nat) :
    Except PaperError DayFills :=
  let due := live.pending.filter fun order => order.executeAt ≤ Instant.dayEnd day
  match live.state.realFills with
  | some mode =>
    if mode.covers day then
      fillRecorded records (postHocSessions live.state.decisions) live.journal data opened mode
        day due
    else fillSimulated data opened (some mode) day due
  | none => fillSimulated data opened none day due

/-- The run once the day has filled: the account marked, the day's rows queued. -/
def closeDay (data : PaperData) (live : Live) (opened : DailyBroker) (fills : DayFills) (day : Nat) :
    Live :=
  let actions := opened.corporateActions.drop live.broker.corporateActions.length
  let marked := fills.broker.mark (data.market.bars day)
  let equity : EquityRow :=
    { tradeDate := day, equity := marked.equity, cash := marked.cash,
      positionCount := marked.positions.entries.length, simulatedEquity := fills.simulatedEquity }
  let settled : Live :=
    { live with
      state := { live.state with settledThrough := some day, realFills := fills.realFills }
      broker := marked
      pending := live.pending.filter fun order => ¬ order.executeAt ≤ Instant.dayEnd day }
  settled.queue (actions.map (.corporateAction day) ++ fills.emissions ++ [.equity equity])

/-- `_settle`, up to its checkpoint. -/
def settleSession (records : Records) (data : PaperData) (live : Live) (day : Nat) :
    Except PaperError Live :=
  match live.broker.openDay day (data.market.bars day) (data.market.distributions day) with
  | .error e => .error (.openDay e)
  | .ok opened =>
    match fillDay records data live opened day with
    | .error e => .error e
    | .ok fills => .ok (closeDay data live opened fills day)

/-- `_settle`. -/
def settle (records : Records) (data : PaperData) (live : Live) (day : Nat) :
    Except PaperError Live :=
  (settleSession records data live day).map fun settled => settled.checkpoint.reconcile

/-- What `after_settlement` reads (`paper/verdict.py`, `_journals`): the settled
days, the fills, and where fills were corrected the ledger that corrects them. -/
structure Evidence where
  equity : List (Nat × ℚ)
  executions : List Execution
  corrections : List CorrectionRow
  ledger : Option Mode

/-- The corrections of the journals. -/
def correctionsOf (journal : List Emission) : List CorrectionRow :=
  journal.filterMap fun
    | .correction row => some row
    | _ => none

/-- The executions of the journals. -/
def executionsOf (journal : List Emission) : List Execution :=
  journal.filterMap fun
    | .execution _ row => some row.execution
    | _ => none

/-- The equity curve of the journals. -/
def equityOf (journal : List Emission) : List (Nat × ℚ) :=
  journal.filterMap fun
    | .equity row => some (row.tradeDate, row.equity)
    | _ => none

/-- `_journals`. -/
def evidence (journal : List Emission) (realFills : Option Mode) : Evidence :=
  { equity := equityOf journal, executions := executionsOf journal,
    corrections := correctionsOf journal,
    ledger := if correctionsOf journal = [] then none else realFills }

/-- What a run is given: its session, when it runs, and everything outside the book. -/
structure RunInput where
  tradeDate : Nat
  now : Instant
  /-- What `data_factory` builds, `none` when it raises. -/
  data : Option PaperData
  /-- The strategy's answer to the account it is shown, `none` when it raises. -/
  strategy : Instant → AccountSnapshot → Option (List OrderRecord)
  /-- `after_settlement`: false once the book is killed. -/
  afterSettlement : Evidence → Bool
  /-- `decision_check`: false when it refuses the decision. -/
  decisionCheck : Bool

/-- One call of the strategy, its payload checked. -/
def ask (input : RunInput) (inferenceAt : Instant) (account : AccountSnapshot) :
    Except PaperError (List StrategyOrder) :=
  match input.strategy inferenceAt account with
  | none => .error (.strategyFailed inferenceAt)
  | some payload =>
    match validateOrderPayload payload inferenceAt with
    | .error e => .error (.contract e)
    | .ok orders => .ok orders

/-- The run once it has decided: the decision recorded, its orders pending. -/
def recordDecision (live : Live) (input : RunInput) (inferenceAt : Instant)
    (orders : List StrategyOrder) : Live :=
  let decided : Live :=
    { live with
      state := { live.state with
        decisions := live.state.decisions ++ [⟨input.tradeDate, inferenceAt, input.now,
          live.broker.accountSnapshot, live.broker.equity⟩]
        startDate := live.state.startDate <|> some input.tradeDate }
      pending := sortPending (live.pending ++ orders) }
  decided.queue (orders.map fun order => .order input.tradeDate order.toRecord)

/-- `_decide`: the earlier decisions re-issued, then the decision of the day. -/
def decideSession (schedule : StrategySchedule) (input : RunInput) (live : Live) :
    Except PaperError Live :=
  match live.state.decisions.mapM fun row => ask input row.inferenceAt row.account with
  | .error e => .error e
  | .ok _ =>
    let inferenceAt := schedule.at input.tradeDate
    match ask input inferenceAt live.broker.accountSnapshot with
    | .error e => .error e
    | .ok orders => .ok (recordDecision live input inferenceAt orders).checkpoint.reconcile

/-- The last session before `day`. -/
def sessionBefore (sessions : List Nat) (day : Nat) : Option Nat :=
  (sessions.filter (· < day)).getLast?

/-- The sessions `_advance` settles. -/
def toSettle (state : PaperState) (sessions : List Nat) (tradeDate : Nat) : List Nat :=
  sessions.filter fun day =>
    state.startDate.getD tradeDate ≤ day ∧ day < tradeDate ∧ state.settledThrough.all (· < day)

/-- The checks `_advance` makes before it settles anything. -/
def checkAdvance (schedule : StrategySchedule) (state : PaperState) (data : PaperData)
    (tradeDate : Nat) : Except PaperError Unit := do
  if tradeDate ∉ data.sessions then throw (.notASession tradeDate)
  match sessionBefore data.sessions tradeDate with
  | none => throw (.dataNotReady data.releaseEnd none)
  | some prior =>
    if data.releaseEnd < prior then throw (.dataNotReady data.releaseEnd (some prior))
  let days := toSettle state data.sessions tradeDate
  match days.find? (· ∉ data.market.tradeDates) with
  | some day => throw (.noDailyBars day)
  | none => pure ()
  match days.find? fun day =>
      schedule.isDue day (sessionBefore data.sessions day) ∧
        day ∉ state.decisions.map Decision.tradeDate with
  | some day => throw (.neverDecided day)
  | none => pure ()

/-- The sessions settled one after another, each checkpointed: a failure keeps
what the sessions before it left. -/
def settleAll (records : Records) (data : PaperData) : Live → List Nat → Live × Option PaperError
  | live, [] => (live, none)
  | live, day :: days =>
    match settle records data live day with
    | .error e => (live, some e)
    | .ok settled => settleAll records data settled days

/-- Whether the schedule asks for a decision of `tradeDate`. -/
def decisionDue (schedule : StrategySchedule) (state : PaperState) (data : PaperData)
    (tradeDate : Nat) : Bool :=
  schedule.isDue tradeDate
    (if state.decisions = [] then none else sessionBefore data.sessions tradeDate)

/-- The end of `_advance`: the decision, where one is due and nothing forbids it. -/
def decideIfDue (schedule : StrategySchedule) (input : RunInput) (data : PaperData) (live : Live) :
    Live × Option PaperError :=
  if input.afterSettlement (evidence live.journal live.state.realFills) ∧
      decisionDue schedule live.state data input.tradeDate then
    if input.decisionCheck then
      match decideSession schedule input live with
      | .error e => (live, some e)
      | .ok decided => (decided, none)
    else (live, some .decisionRefused)
  else (live, none)

/-- `_advance`: what the run leaves, and the error it stopped with. -/
def advance (schedule : StrategySchedule) (records : Records) (input : RunInput)
    (data : PaperData) (live : Live) : Live × Option PaperError :=
  match checkAdvance schedule live.state data input.tradeDate with
  | .error e => (live, some e)
  | .ok () =>
    match settleAll records data live (toSettle live.state data.sessions input.tradeDate) with
    | (settled, some e) => (settled, some e)
    | (settled, none) => decideIfDue schedule input data settled

/-- A book on disk: the state file, the journals in the order they were
written, and the owner's records. -/
structure Book where
  state : PaperState
  journal : List Emission
  lines : List RecordLine

/-- The account the next run of a book restores. -/
def Book.account (profile : BrokerProfile) (book : Book) : AccountRecord :=
  book.state.account.getD (accountRecord (DailyBroker.new profile))

/-- A book nobody has run yet. -/
def Book.new : Book := ⟨PaperState.new, [], []⟩

/-- Nothing settles a session whose outcome the owner has not recorded. -/
def checkRecorded (state : PaperState) (records : Records) (pending : List StrategyOrder)
    (tradeDate : Nat) : Except PaperError Unit :=
  match state.realFills with
  | none => .ok ()
  | some mode =>
    match unresolved mode (postHocSessions state.decisions) records pending tradeDate with
    | [] => .ok ()
    | missing => .error (.awaitingFills missing)

/-- What `run_day` checks before it builds the data. -/
def checkRun (state : PaperState) (records : Records) (pending : List StrategyOrder)
    (input : RunInput) : Except PaperError Unit :=
  match (state.decisions.map Decision.tradeDate).getLast?.filter (input.tradeDate < ·) with
  | some last => .error (.decidedLater last)
  | none =>
    -- A decision taken the evening before would miss the night's data.
    if input.now.day < input.tradeDate then .error (.notBegun input.tradeDate)
    else checkRecorded state records pending input.tradeDate

/-- A restored run with its queued rows journaled, switched to real fills if the
owner asked. -/
def Book.start (book : Book) (broker : DailyBroker) (pending : List StrategyOrder) : Live :=
  let reconciled := (⟨book.state, broker, pending, book.journal⟩ : Live).reconcile
  { reconciled with state := adopt reconciled.state (readRecords book.lines) }

/-- What `run_day` restores before it does anything. -/
def Book.restore (profile : BrokerProfile) (book : Book) : Except PaperError Live := do
  let broker ← restoreBroker profile book.state.account
  let pending ← restoreOrders book.state.pendingOrders
  .ok (book.start broker pending)

/-- The book a run leaves on disk. -/
def Book.leave (book : Book) (live : Live) : Book :=
  { book with state := live.state, journal := live.journal }

/-- `run_day` once the account is restored. -/
def runFrom (schedule : StrategySchedule) (records : Records) (input : RunInput) (live : Live) :
    Live × Option PaperError :=
  if (live.state.decisions.map Decision.tradeDate).getLast? = some input.tradeDate then (live, none)
  else
    match checkRun live.state records live.pending input, input.data with
    | .error e, _ => (live, some e)
    | .ok (), none => (live, some .dataFactory)
    | .ok (), some data => advance schedule records input data live

/-- `run_day`: the book the run leaves on disk, and the error it stopped with. -/
def runDay (profile : BrokerProfile) (schedule : StrategySchedule) (book : Book)
    (input : RunInput) : Book × Option PaperError :=
  match book.restore profile with
  | .error e => (book, some e)
  | .ok live =>
    let left := runFrom schedule (readRecords book.lines) input live
    (book.leave left.1, left.2)

/-- What happens to a book. -/
inductive BookEvent where
  /-- The owner's console appends a record. -/
  | append (line : RecordLine)
  | run (input : RunInput)

def Book.step (profile : BrokerProfile) (schedule : StrategySchedule) (book : Book) :
    BookEvent → Book
  | .append line => { book with lines := book.lines ++ [line] }
  | .run input => (runDay profile schedule book input).1

/-- The book after a sequence of events, from nothing. -/
def Book.after (profile : BrokerProfile) (schedule : StrategySchedule) (events : List BookEvent) :
    Book :=
  events.foldl (Book.step profile schedule) Book.new

end AutoTrade
