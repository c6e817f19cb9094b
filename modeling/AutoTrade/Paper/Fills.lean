import AutoTrade.Environment.Broker

/-!
# Real-fill reconciliation

`autotrade/paper/fills.py`: the owner's records, the settlement of one session
from them, and the correction of sessions already settled. An order key is the
`(time, side, symbol)` text of the source; it is kept as its three parts, and
`OrderKey.parses` says whether `parse_key` reads the text back.
-/

namespace AutoTrade

/-- Half a cent: two money figures closer than this are the same figure. -/
def cent : ℚ := 5 / 1000

/-- The parts of `key_text`; the clock is the minute of the day. -/
structure OrderKey where
  clock : Nat
  action : OrderAction
  symbol : Symbol
  deriving DecidableEq

instance : LawfulBEq (Nat × OrderKey) := inferInstance

/-- Whether `parse_key` succeeds: `split(" ")` finds exactly three parts. -/
def OrderKey.parses (key : OrderKey) : Bool := ' ' ∉ key.symbol.toList

/-- `order_key`. -/
def orderKey (order : StrategyOrder) : OrderKey :=
  ⟨order.executeAt.minute, order.action, order.symbol⟩

/-- `order_session`. -/
def orderSession (order : StrategyOrder) : Nat := order.executeAt.day

/-- `SYMBOL_PATTERN`. -/
def isSymbolCode (symbol : Symbol) : Bool :=
  match symbol.toList with
  | [a, b, c, d, e, f, '.', x, y] =>
    [a, b, c, d, e, f].all Char.isDigit && [['S', 'H'], ['S', 'Z'], ['B', 'J']].contains [x, y]
  | _ => false

/-- The stated figures of a fill, as `normalize_record` lets them pass. -/
structure StatedFill where
  quantity : Int
  price : ℚ
  commission : Option ℚ
  quantity_pos : 0 < quantity
  price_pos : 0 < price
  commission_nonneg : ∀ c ∈ commission, 0 ≤ c

instance : DecidableEq StatedFill := fun x y =>
  decidable_of_iff (x.quantity = y.quantity ∧ x.price = y.price ∧ x.commission = y.commission)
    (by cases x; cases y; simp)

/-- `OUTCOMES`. -/
inductive RecordOutcome where
  | simulated
  | filled (fill : StatedFill)
  | notTraded
  deriving DecidableEq

/-- `Record`: what the latest line for a key says. -/
structure Record where
  eventId : String
  outcome : RecordOutcome
  deriving DecidableEq

/-- `POST_HOC`: nobody held the sheet of a back-filled session. -/
def postHocRecord : Record := ⟨"", .notTraded⟩

/-- A key's line of `fills.jsonl` that `normalize_record` accepts. -/
structure FillLine where
  eventId : String
  tradeDate : Nat
  key : OrderKey
  outcome : RecordOutcome
  clock_lt : key.clock < 24 * 60
  symbol_code : isSymbolCode key.symbol = true
  buy_lot : ∀ fill, outcome = .filled fill → key.action = .buy →
    validBuyLot fill.quantity key.symbol = true

/-- A session record's outcome. -/
inductive SessionOutcome where
  | simulated | notTraded
  deriving DecidableEq, Repr

def SessionOutcome.toRecord : SessionOutcome → RecordOutcome
  | .simulated => .simulated
  | .notTraded => .notTraded

inductive RecordLine where
  | enable
  | session (eventId : String) (tradeDate : Nat) (outcome : SessionOutcome)
  | fill (line : FillLine)

/-- `Records`: everything `fills.jsonl` says, the latest line of a key winning. -/
structure Records where
  enabled : Bool
  sessions : Dict Nat Record
  fills : Dict (Nat × OrderKey) Record

namespace Records

def empty : Records := ⟨false, Dict.empty, Dict.empty⟩

def read (records : Records) : RecordLine → Records
  | .enable => { records with enabled := true }
  | .session eventId day outcome =>
    { records with sessions := records.sessions.set day ⟨eventId, outcome.toRecord⟩ }
  | .fill line =>
    { records with
      fills := records.fills.set (line.tradeDate, line.key) ⟨line.eventId, line.outcome⟩ }

/-- `Records.keys`. -/
def keys (records : Records) (day : Nat) : List OrderKey :=
  (records.fills.keys.filter fun k => k.1 = day).map Prod.snd

end Records

/-- `read_records`. -/
def readRecords (lines : List RecordLine) : Records := lines.foldl Records.read Records.empty

/-- `resolve`: the outcome a key settles with, `none` while nothing says. -/
def resolve (records : Records) (day : Nat) (key : OrderKey) (ordered postHoc : Bool) :
    Option Record :=
  match records.fills.get? (day, key) with
  | some record => some record
  | none =>
    if !ordered then none
    else
      match records.sessions.get? day with
      | some record => some record
      | none => if postHoc then some postHocRecord else none

/-- What stops a settlement. -/
inductive FillsError where
  | keyDoesNotParse (key : OrderKey)
  | noRecordedOutcome (session : Nat) (key : OrderKey)
  | cannotBook (session : Nat) (key : OrderKey) (reason : Option Reason)
  | invalidCommission (commission : ℚ)
  | missingPrice (key : OrderKey)
  | negativeCash (day clock : Nat) (cash : ℚ)
  | broker (error : BrokerError)
  | holdsNone (session : Nat) (key : OrderKey)
  | missingRealized (session : Nat) (key : OrderKey)
  | wentExDate (session : Nat) (key : OrderKey)
  | takesBackTooMany (session : Nat) (key : OrderKey) (shares held : Int)
  | taxedSaleCount (session : Nat) (key : OrderKey)
  | lotsAlreadySold (session : Nat) (symbol : Symbol)
  | correctionNegativeCash (session : Nat) (key : OrderKey) (cash : ℚ)
  deriving DecidableEq

/-- `_outcome`'s record: what a key's executions came to. -/
structure Outcome where
  quantity : Int
  price : Option ℚ
  notional : ℚ
  commission : ℚ
  stampDuty : ℚ
  dividendTax : ℚ
  realizedPnl : Option ℚ
  reason : Option Reason
  deriving DecidableEq

def Execution.isFilled (e : Execution) : Bool := e.status = .filled

def Execution.notional (e : Execution) : ℚ := e.price.getD 0 * e.quantity

/-- `_outcome`. -/
def outcome (executions : List Execution) : Outcome :=
  let filled := executions.filter Execution.isFilled
  let quantity := (filled.map Execution.quantity).sum
  let notional := (filled.map Execution.notional).sum
  let realized := filled.filterMap Execution.realizedPnl
  { quantity
    price := if quantity ≠ 0 then some (notional / quantity) else none
    notional
    commission := (filled.map Execution.commission).sum
    stampDuty := (filled.map Execution.stampDuty).sum
    dividendTax := (filled.map Execution.dividendTax).sum
    realizedPnl := if realized ≠ [] then some realized.sum else none
    reason := if quantity ≠ 0 then none else executions.findSome? Execution.reason }

/-- `_NOTHING`. -/
def nothing : Outcome := outcome []

/-- One key of a settled session, the source's ledger entry. -/
structure Entry where
  ordered : Int
  simulated : Outcome
  real : Outcome
  deriving DecidableEq

abbrev Ledger := Dict OrderKey Entry

/-- The `real_fills` state of a book. -/
structure Mode where
  after : Option Nat
  sessions : Dict Nat Ledger

/-- `RealFills.covers`. -/
def Mode.covers (mode : Mode) (day : Nat) : Bool := mode.after.all (· < day)

/-- A row of `executions_<day>.jsonl`. -/
structure ExecutionRow where
  execution : Execution
  recorded : Option String := none
  offSheet : Bool := false
  deriving DecidableEq

theorem nothing_nonneg : (0 : ℚ) ≤ 0 := le_refl 0

/-- The profile `record_fill` executes under: a known price has no slippage and
meets no holding cap, and a stated commission replaces the model's. -/
def recordProfile (base : BrokerProfile) : Option ℚ → Except FillsError BrokerProfile
  | none => .ok { base with
      slippageBps := 0, maxTotalHoldings := none, maxSingleNameWeight := none,
      slippageBps_nonneg := nothing_nonneg }
  | some c =>
    if nonneg : 0 ≤ c then
      .ok { base with
        slippageBps := 0, maxTotalHoldings := none, maxSingleNameWeight := none,
        commissionBps := 0, minCommissionCny := c, transferFeeBps := 0,
        slippageBps_nonneg := nothing_nonneg, commissionBps_nonneg := nothing_nonneg,
        minCommissionCny_nonneg := nonneg, transferFeeBps_nonneg := nothing_nonneg }
    else .error (.invalidCommission c)

/-- The account under another profile. -/
def DailyBroker.withProfile (b : DailyBroker) (profile : BrokerProfile) : DailyBroker :=
  { b with profile }

/-- The order `record_fill` executes: the price is known, whatever its session. -/
def bareOrder (order : StrategyOrder) : StrategyOrder :=
  { order with session := none, limitPrice := none }

/-- The band `record_fill` puts around a known price. -/
def recordBar (p : ℚ) : Bar := { upLimit := some (p * 2), downLimit := some (p / 2) }

/-- `record_fill`. -/
def recordFill (b : DailyBroker) (order : StrategyOrder) (p : ℚ) (commission : Option ℚ) :
    Except FillsError (DailyBroker × Execution) :=
  match recordProfile b.profile commission with
  | .error e => .error e
  | .ok profile =>
    match (b.withProfile profile).execute (bareOrder order) (some (recordBar p)) order.executeAt
        (some p) with
    | .error e => .error (.broker e)
    | .ok (booked, execution) =>
      if execution.isFilled then
        .ok (booked.withProfile b.profile,
          { execution with session := order.session, limitPrice := order.limitPrice })
      else .error (.cannotBook (orderSession order) (orderKey order) execution.reason)

/-- The execution of a key its owner recorded as not traded. -/
def notTradedExecution (order : StrategyOrder) (ordered : Int) : Execution :=
  { symbol := order.symbol, action := order.action, quantity := ordered,
    executeAt := order.executeAt, matchedAt := order.executeAt, status := .unfilled,
    reason := some .notTraded, metadata := order.metadata, session := order.session,
    limitPrice := order.limitPrice }

/-- `record.event_id or None`. -/
def Record.recorded (record : Record) : Option String :=
  if record.eventId = "" then none else some record.eventId

/-- `_recorded`. -/
def recordedRow (b : DailyBroker) (order : StrategyOrder) (ordered : Int) (record : Record) :
    Except FillsError (DailyBroker × ExecutionRow) :=
  match record.outcome with
  | .filled fill =>
    let traded := { order with quantity := fill.quantity, quantity_pos := fill.quantity_pos }
    (recordFill b traded fill.price fill.commission).map fun booked =>
      (booked.1, { execution := booked.2, recorded := record.recorded })
  | _ => .ok (b, { execution := notTradedExecution order ordered, recorded := record.recorded })

/-- One due order with what the simulator made of it. -/
abbrev Simulated := StrategyOrder × Execution

def Simulated.key (x : Simulated) : OrderKey := orderKey x.1

/-- The account as `_apply` goes through a session: what each key came to so
far, in booking order, and the keys whose record has been booked. -/
structure Applying where
  broker : DailyBroker
  booked : List (OrderKey × ExecutionRow)
  settled : List OrderKey

/-- `by_key[key]`. -/
def ofKey (simulated : List Simulated) (key : OrderKey) : List Simulated :=
  simulated.filter fun x => x.key = key

/-- The shares ordered under a key. -/
def orderedShares (simulated : List Simulated) (key : OrderKey) : Int :=
  ((ofKey simulated key).map fun x => x.1.quantity).sum

/-- The first order of a key, which stands for the key where it is recorded as one. -/
def firstOrder (simulated : List Simulated) (x : Simulated) : StrategyOrder :=
  match ofKey simulated x.key with
  | [] => x.1
  | first :: _ => first.1

/-- One pass of `_apply`'s loop over the due orders of a clock. -/
def applyOrder (records : Records) (late : List Nat) (simulated : List Simulated) (s : Applying)
    (x : Simulated) : Except FillsError Applying :=
  if x.key ∈ s.settled then .ok s
  else
    let session := orderSession x.1
    match resolve records session x.key true (session ∈ late) with
    | none => .error (.noRecordedOutcome session x.key)
    | some record =>
      match record.outcome with
      | .simulated =>
        if x.2.isFilled then
          match x.2.price with
          | none => .error (.missingPrice x.key)
          | some p =>
            (recordFill s.broker x.1 p (some x.2.commission)).map fun booked =>
              { s with broker := booked.1
                       booked := s.booked ++ [(x.key, { execution := booked.2 })] }
        else .ok { s with booked := s.booked ++ [(x.key, { execution := x.2 })] }
      | _ =>
        (recordedRow s.broker (firstOrder simulated x) (orderedShares simulated x.key) record).map
          fun booked =>
            { broker := booked.1, booked := s.booked ++ [(x.key, booked.2)],
              settled := x.key :: s.settled }

/-- The order of a trade off the sheet. -/
def offSheetOrder (day : Nat) (key : OrderKey) (fill : StatedFill) (h : key.clock < 24 * 60) :
    StrategyOrder :=
  { symbol := key.symbol, action := key.action, quantity := fill.quantity,
    executeAt := Instant.atMinute day key.clock h, metadata := [], session := none,
    limitPrice := none, quantity_pos := fill.quantity_pos }

/-- One pass of `_apply`'s loop over the trades off the sheet. -/
def applyOffSheet (records : Records) (day : Nat) (s : Applying) (key : OrderKey) :
    Except FillsError Applying :=
  match records.fills.get? (day, key) with
  | none => .ok s
  | some record =>
    match record.outcome with
    | .filled fill =>
      if h : key.clock < 24 * 60 then
        (recordedRow s.broker (offSheetOrder day key fill h) 0 record).map fun booked =>
          { s with broker := booked.1
                   booked := s.booked ++ [(key, { booked.2 with offSheet := true })] }
      else .error (.keyDoesNotParse key)
    -- A trade recorded and then withdrawn.
    | _ => .ok s

/-- The order in which trades off the sheet are taken: within a minute the
sales first, the order a person's cash allows. -/
def offSheetLe (k k' : OrderKey) : Bool :=
  k.clock < k'.clock || (k.clock = k'.clock && (k.action = .sell || k'.action = .buy))

/-- The keys recorded for `day` that no due order has. -/
def offSheetKeys (records : Records) (day : Nat) (simulated : List Simulated) : List OrderKey :=
  ((records.keys day).filter fun key => key ∉ simulated.map Simulated.key).insertionSort
    fun k k' => offSheetLe k k'

/-- The cash check that ends a clock. -/
def checkCash (day clock : Nat) (s : Applying) : Except FillsError Applying :=
  if s.broker.cash < -(1 / 1000000) then .error (.negativeCash day clock s.broker.cash) else .ok s

/-- Everything `_apply` books at one clock. -/
def applyClock (records : Records) (late : List Nat) (day : Nat) (simulated : List Simulated)
    (s : Applying) (clock : Nat) : Except FillsError Applying := do
  let ordered ← (simulated.filter fun x => x.key.clock = clock).foldlM
    (applyOrder records late simulated) s
  let traded ← ((offSheetKeys records day simulated).filter fun key => key.clock = clock).foldlM
    (applyOffSheet records day) ordered
  checkCash day clock traded

/-- The distinct clocks of the keys, in order. -/
def clocksOf (keys : List OrderKey) : List Nat :=
  (keys.map OrderKey.clock).dedup.insertionSort (· ≤ ·)

/-- The executions booked under a key. -/
def realOf (booked : List (OrderKey × ExecutionRow)) (key : OrderKey) : List Execution :=
  (booked.filter fun entry => entry.1 = key).map fun entry => entry.2.execution

/-- The ledger entry of one key of a settled session. -/
def ledgerEntry (simulated : List Simulated) (booked : List (OrderKey × ExecutionRow))
    (key : OrderKey) : Entry :=
  { ordered := orderedShares simulated key
    simulated := outcome ((ofKey simulated key).map Prod.snd)
    real := outcome (realOf booked key) }

/-- The keys of a session: the due orders' and the trades off the sheet. -/
def sessionKeys (records : Records) (day : Nat) (simulated : List Simulated) : List OrderKey :=
  simulated.map Simulated.key ++ offSheetKeys records day simulated

/-- The ledger of a settled session. -/
def sessionLedger (keys : List OrderKey) (simulated : List Simulated)
    (booked : List (OrderKey × ExecutionRow)) : Ledger :=
  keys.foldl (fun ledger key => ledger.set key (ledgerEntry simulated booked key)) Dict.empty

/-- `_apply`: the day's recorded outcomes booked onto the account, the journal
rows and the session's ledger. -/
def applyDay (records : Records) (late : List Nat) (b : DailyBroker) (day : Nat)
    (simulated : List Simulated) :
    Except FillsError (DailyBroker × List ExecutionRow × Ledger) :=
  let keys := sessionKeys records day simulated
  match keys.find? fun key => !key.parses with
  | some key => .error (.keyDoesNotParse key)
  | none =>
    ((clocksOf keys).foldlM (applyClock records late day simulated) ⟨b, [], []⟩).map fun s =>
      (s.broker, s.booked.map Prod.snd, sessionLedger keys simulated s.booked)

end AutoTrade
