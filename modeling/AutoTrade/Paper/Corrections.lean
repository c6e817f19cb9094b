import AutoTrade.Paper.Fills

/-!
# Corrections of settled sessions

The half of `RealFills` (`autotrade/paper/fills.py`) that books a changed record
of a settled session as a difference on the session being settled, and
`RealFills.settle`, which does the corrections before the day's own fills.
-/

namespace AutoTrade

/-- What a sale of this outcome paid into the account. -/
def Outcome.proceeds (o : Outcome) : ℚ := o.notional - o.commission - o.stampDuty - o.dividendTax

/-- `_same`. -/
def same (left right : Outcome) : Bool :=
  decide (left.quantity = right.quantity ∧ |left.notional - right.notional| < cent ∧
    |left.commission - right.commission| < cent ∧ |left.stampDuty - right.stampDuty| < cent ∧
    |left.dividendTax - right.dividendTax| < cent)

/-- A row of `corrections.jsonl`. -/
structure CorrectionRow where
  tradeDate : Nat
  corrects : Nat
  key : OrderKey
  quantity : Int
  cash : ℚ
  commission : ℚ
  stampDuty : ℚ
  dividendTax : ℚ
  realizedPnl : ℚ
  recorded : Option String
  deriving DecidableEq

/-- `_target`. -/
def targetOutcome (profile : BrokerProfile) (session : Nat) (key : OrderKey) (record : Record)
    (entry : Entry) : Except FillsError Outcome :=
  match record.outcome with
  | .simulated => .ok entry.simulated
  | .notTraded => .ok nothing
  | .filled fill =>
    let notional := fill.price * fill.quantity
    match profile.fees notional key.action session with
    | .error e => .error (.broker e)
    | .ok (commission, stamp) =>
      .ok { nothing with
        quantity := fill.quantity, price := some fill.price, notional
        commission := fill.commission.getD commission, stampDuty := stamp
        -- The tax a sale paid depends on its share count only.
        dividendTax := if fill.quantity = entry.real.quantity then entry.real.dividendTax else 0 }

/-- `_move_lots` for shares taken back: the lots of `session`, the latest first,
and what of the shares none of them still holds. -/
def takeBack (session : Nat) : Int → List Lot → Int × List Lot
  | remaining, [] => (remaining, [])
  | remaining, lot :: rest =>
    let (left, lots) := takeBack session remaining rest
    if lot.acquired = session then
      (left - min left lot.quantity, { lot with quantity := lot.quantity - min left lot.quantity } :: lots)
    else (left, lot :: lots)

/-- `_move_lots`: shares bought on `session` join the lot ledger or leave it. -/
def moveLots (b : DailyBroker) (symbol : Symbol) (session : Nat) (shares : Int) :
    Except FillsError DailyBroker :=
  let lots := (b.lots.get? symbol).getD []
  let keep (kept : List Lot) : DailyBroker :=
    { b with lots := if kept = [] then b.lots.erase symbol else b.lots.set symbol kept }
  if 0 < shares then
    let index := (lots.filter fun lot => lot.acquired ≤ session).length
    .ok (keep (lots.insertIdx index ⟨shares, session, 0, 0⟩))
  else
    let (remaining, kept) := takeBack session (-shares) lots
    if remaining ≠ 0 then .error (.lotsAlreadySold session symbol)
    else .ok (keep (kept.filter fun lot => 0 < lot.quantity))

/-- `_ex_dated`: whether the account or its journals record an ex-date of the
symbol after `session`. -/
def exDated (b : DailyBroker) (history : List (Nat × CorporateAction)) (symbol : Symbol)
    (session : Nat) : Bool :=
  b.corporateActions.any (fun action => action.symbol = symbol ∧ session < action.tradeDate) ||
    history.any fun row => session < row.1 ∧ row.2.symbol = symbol

/-- How far a correction moves the account. -/
structure Change where
  shares : Int
  cash : ℚ
  basis : ℚ
  realized : ℚ
  target : Outcome
  deriving DecidableEq

/-- The cost basis per share a settled sale released. -/
def releasedUnit (position : Option Position) (session : Nat) (key : OrderKey)
    (applied : Outcome) : Except FillsError ℚ :=
  if applied.quantity ≠ 0 then
    match applied.realizedPnl with
    | some realized => .ok ((applied.proceeds - realized) / applied.quantity)
    | none => .error (.missingRealized session key)
  else
    match position with
    | some p => .ok p.averageCost
    | none => .error (.holdsNone session key)

/-- The P&L of a sale's outcome whose shares cost `unit` each. -/
def realizedAt (unit : ℚ) (target : Outcome) : Option ℚ :=
  if target.quantity ≠ 0 then some (target.proceeds - unit * target.quantity) else none

/-- The first half of `_book`: the difference of the two outcomes of a key. -/
def changeOf (position : Option Position) (session : Nat) (key : OrderKey)
    (applied target : Outcome) : Except FillsError Change :=
  match key.action with
  | .buy =>
    let cost := (target.notional + target.commission) - (applied.notional + applied.commission)
    .ok { shares := target.quantity - applied.quantity, cash := -cost, basis := cost,
          realized := 0, target }
  | .sell =>
    (releasedUnit position session key applied).map fun unit =>
      { shares := applied.quantity - target.quantity
        cash := target.proceeds - applied.proceeds
        basis := unit * (applied.quantity - target.quantity : Int)
        realized := (realizedAt unit target).getD 0 - applied.realizedPnl.getD 0
        target := { target with realizedPnl := realizedAt unit target } }

/-- What `_book` refuses about a changed share count, and the lots it moves. -/
def moveShares (b : DailyBroker) (history : List (Nat × CorporateAction)) (session : Nat)
    (key : OrderKey) (shares : Int) : Except FillsError DailyBroker :=
  let held := ((b.positions.get? key.symbol).map Position.quantity).getD 0
  let available := ((b.positions.get? key.symbol).map Position.availableQuantity).getD 0
  if shares = 0 then .ok b
  else if exDated b history key.symbol session then .error (.wentExDate session key)
  else if held + shares < 0 ∨ (shares < 0 ∧ available < -shares) then
    .error (.takesBackTooMany session key (-shares) held)
  else if ¬ b.profile.dividendTax then .ok b
  else if key.action = .sell then .error (.taxedSaleCount session key)
  else moveLots b key.symbol session shares

/-- The position a change leaves, and what of its cost is realized because
nothing is left to carry it. -/
def changedPosition (position : Option Position) (applied : Outcome) (change : Change)
    (key : OrderKey) : Except FillsError (Option Position × ℚ) :=
  let held := (position.map Position.quantity).getD 0
  let basis := ((position.map Position.basis).getD 0) + change.basis
  let quantity := held + change.shares
  if quantity = 0 then .ok (none, basis)
  else
    match position with
    | none =>
      match (change.target.price <|> applied.price) with
      | none => .error (.missingPrice key)
      | some p => .ok (some ⟨quantity, quantity, basis / quantity, p⟩, 0)
    | some p =>
      .ok (some { p with quantity, availableQuantity := p.availableQuantity + change.shares,
                         averageCost := basis / quantity }, 0)

/-- The row a correction is journaled as. -/
def correctionRow (day session : Nat) (key : OrderKey) (applied target : Outcome)
    (change : Change) (closed : ℚ) (recorded : Option String) : CorrectionRow :=
  { tradeDate := day, corrects := session, key, quantity := change.shares, cash := change.cash,
    commission := target.commission - applied.commission
    stampDuty := target.stampDuty - applied.stampDuty
    dividendTax := target.dividendTax - applied.dividendTax
    realizedPnl := change.realized - closed, recorded }

/-- `_book`: the account moved by `target` less `applied`, the outcome the key
now stands at, and the journal row. -/
def bookCorrection (b : DailyBroker) (history : List (Nat × CorporateAction))
    (day session : Nat) (key : OrderKey) (applied target : Outcome) (recorded : Option String) :
    Except FillsError (DailyBroker × Outcome × CorrectionRow) := do
  let position := b.positions.get? key.symbol
  let change ← changeOf position session key applied target
  let moved ← moveShares b history session key change.shares
  let left ← changedPosition position applied change key
  if b.cash + change.cash < -(1 / 1000000) then
    .error (.correctionNegativeCash session key (b.cash + change.cash))
  else
    .ok (({ moved with cash := b.cash + change.cash } : DailyBroker).withPosition key.symbol left.1,
      change.target, correctionRow day session key applied target change left.2 recorded)

/-- The account as `_corrections` goes through the ledger. -/
structure Correcting where
  broker : DailyBroker
  sessions : Dict Nat Ledger
  rows : List CorrectionRow

/-- An entry no order and no settlement stands behind. -/
def emptyEntry : Entry := ⟨0, nothing, nothing⟩

/-- The ledger entry of a key of a settled session. -/
def Correcting.entry (s : Correcting) (session : Nat) (key : OrderKey) : Entry :=
  (((s.sessions.get? session).getD Dict.empty).get? key).getD emptyEntry

/-- The ledger with the key's real outcome replaced. -/
def Correcting.setReal (s : Correcting) (session : Nat) (key : OrderKey) (real : Outcome) :
    Dict Nat Ledger :=
  s.sessions.set session
    (((s.sessions.get? session).getD Dict.empty).set key { s.entry session key with real })

/-- One key of one settled session, as the loop of `_corrections` treats it. -/
def correctKey (records : Records) (late : List Nat) (history : List (Nat × CorporateAction))
    (day session : Nat) (s : Correcting) (key : OrderKey) : Except FillsError Correcting :=
  let entry := s.entry session key
  match resolve records session key (entry.ordered ≠ 0) (session ∈ late) with
  | none => .ok s
  | some record =>
    match targetOutcome s.broker.profile session key record entry with
    | .error e => .error e
    | .ok target =>
      if same entry.real target then .ok s
      else
        (bookCorrection s.broker history day session key entry.real target record.recorded).map
          fun booked =>
            { broker := booked.1, sessions := s.setReal session key booked.2.1,
              rows := s.rows ++ [booked.2.2] }

/-- The keys `_corrections` looks at in one session. -/
def correctedKeys (records : Records) (session : Nat) (ledger : Ledger) : List OrderKey :=
  ledger.keys ++ (records.keys session).filter fun key => key ∉ ledger.keys

def correctSession (records : Records) (late : List Nat) (history : List (Nat × CorporateAction))
    (day : Nat) (s : Correcting) (session : Nat) : Except FillsError Correcting :=
  (correctedKeys records session ((s.sessions.get? session).getD Dict.empty)).foldlM
    (correctKey records late history day session) s

/-- `_corrections`: the settled sessions in date order. -/
def corrections (records : Records) (late : List Nat) (history : List (Nat × CorporateAction))
    (b : DailyBroker) (mode : Mode) (day : Nat) : Except FillsError Correcting :=
  (mode.sessions.keys.insertionSort (· ≤ ·)).foldlM
    (correctSession records late history day) ⟨b, mode.sessions, []⟩

/-- What `RealFills.settle` leaves. -/
structure Settled where
  broker : DailyBroker
  mode : Mode
  rows : List ExecutionRow
  corrections : List CorrectionRow

/-- `RealFills.settle`: the corrections of earlier sessions, then the day's
recorded outcomes; the session joins the ledger. -/
def settleRecorded (records : Records) (late : List Nat) (history : List (Nat × CorporateAction))
    (b : DailyBroker) (mode : Mode) (day : Nat) (simulated : List Simulated) :
    Except FillsError Settled := do
  let corrected ← corrections records late history b mode day
  (applyDay records late corrected.broker day simulated).map fun applied =>
    { broker := applied.1
      mode := { mode with sessions := corrected.sessions.set day applied.2.2 }
      rows := applied.2.1
      corrections := corrected.rows }

end AutoTrade
