import AutoTrade.Paper.Engine

/-!
# The sessions a book goes through

The sessions the runs of a book open, in order, and the errors its runs stop
with: what a statement about every session of every run quantifies over.
-/

namespace AutoTrade

/-- A session a run opens, with the run as it stands before it. -/
structure Visit where
  records : Records
  data : PaperData
  live : Live
  opened : DailyBroker
  day : Nat

namespace Visit

/-- The orders the session settles. -/
def due (v : Visit) : List StrategyOrder :=
  v.live.pending.filter fun order => order.executeAt ≤ Instant.dayEnd v.day

def late (v : Visit) : List Nat := postHocSessions v.live.state.decisions

/-- Whether the session settles from the owner's records. -/
def follows (v : Visit) : Bool := v.live.state.realFills.any fun mode => mode.covers v.day

end Visit

/-- The sessions of a run that open, up to the one that fails. -/
def settleVisits (records : Records) (data : PaperData) : Live → List Nat → List Visit
  | _, [] => []
  | live, day :: days =>
    match live.broker.openDay day (data.market.bars day) (data.market.distributions day) with
    | .error _ => []
    | .ok opened =>
      ⟨records, data, live, opened, day⟩ ::
        match settle records data live day with
        | .error _ => []
        | .ok settled => settleVisits records data settled days

/-- The sessions `runFrom` opens. -/
def runVisits (schedule : StrategySchedule) (records : Records) (input : RunInput) (live : Live) :
    List Visit :=
  if (live.state.decisions.map Decision.tradeDate).getLast? = some input.tradeDate then []
  else
    match checkRun live.state records live.pending input, input.data with
    | .ok (), some data =>
      match checkAdvance schedule live.state data input.tradeDate with
      | .ok () =>
        settleVisits records data live (toSettle live.state data.sessions input.tradeDate)
      | .error _ => []
    | _, _ => []

/-- The sessions one event opens. -/
def Book.visits (profile : BrokerProfile) (schedule : StrategySchedule) (book : Book) :
    BookEvent → List Visit
  | .append _ => []
  | .run input =>
    match book.restore profile with
    | .error _ => []
    | .ok live => runVisits schedule (readRecords book.lines) input live

/-- The sessions a sequence of events opens. -/
def Book.visitsAlong (profile : BrokerProfile) (schedule : StrategySchedule) :
    Book → List BookEvent → List Visit
  | _, [] => []
  | book, event :: events =>
    book.visits profile schedule event ++
      (book.step profile schedule event).visitsAlong profile schedule events

/-- The error an event stops with. -/
def Book.error (profile : BrokerProfile) (schedule : StrategySchedule) (book : Book) :
    BookEvent → Option PaperError
  | .append _ => none
  | .run input => (runDay profile schedule book input).2

/-- The errors a sequence of events stops with. -/
def Book.errorsAlong (profile : BrokerProfile) (schedule : StrategySchedule) :
    Book → List BookEvent → List PaperError
  | _, [] => []
  | book, event :: events =>
    (book.error profile schedule event).toList ++
      (book.step profile schedule event).errorsAlong profile schedule events

def BookEvent.isRun : BookEvent → Bool
  | .append _ => false
  | .run _ => true

/-! ## A small market

Three sessions on which one name trades at a flat 10, and a strategy that buys
it once: the runs the examples and counterexamples of this development start from. -/

def flatBar : Bar :=
  { opening := some 10, close := some 10, preClose := some 10, high := some 10, low := some 10,
    upLimit := some 11, downLimit := some 9, amount := some 1000, vol := some 100 }

def smallSessions : List Nat := [20240102, 20240103, 20240104]

def smallMarket : DailyMarketData :=
  { tradeDates := smallSessions
    bars := fun day symbol =>
      if day ∈ smallSessions ∧ symbol = "600000.SH" then some flatBar else none
    distributions := fun _ _ => {}
    sorted := by decide
    bars_eq_none := fun _ absent _ => if_neg fun here => absent here.1 }

def smallData : PaperData :=
  { market := smallMarket, sessions := 20231229 :: smallSessions, releaseEnd := 20240104,
    executionPrice := fun _ _ => none, sorted := by decide }

/-- Every session is decided at 08:30. -/
def smallSchedule : StrategySchedule := ⟨.day, 510, by decide⟩

/-- A buy of one lot at the open. -/
def buyLot (symbol : Symbol) (day : Nat) : OrderRecord :=
  { symbol, action := .buy, quantity := 100, executeAt := Instant.atMinute day 570 Instant.open_lt,
    metadata := [], session := none, limitPrice := none }

/-- A run whose strategy orders `orders` on the first session and nothing later. -/
def smallRun (data : PaperData) (orders : List OrderRecord) (day : Nat) : RunInput :=
  { tradeDate := day, now := Instant.atMinute day 500 (by decide), data := some data
    strategy := fun inferenceAt _ => some (if inferenceAt.day = 20240102 then orders else [])
    afterSettlement := fun _ => true, decisionCheck := true }

end AutoTrade
