import AutoTrade.Environment.DividendTax
import AutoTrade.Environment.Strategy
import AutoTrade.Misc.Dict
import AutoTrade.Misc.Runs
import Mathlib.Algebra.Order.Ring.Star
import Mathlib.Data.Rat.Star

/-!
# The daily broker

`autotrade/environment/broker.py`: the account, its ex-date settlement and the
execution of one order. Prices and money are rationals; a missing, NaN or
non-numeric bar field is `none`. A method that mutates the broker returns the
broker it leaves; one that raises returns the error.
-/

namespace AutoTrade

/-- `QUOTE_HALF_TICK`, which is also `EX_DATE_PRICE_TOLERANCE`. -/
def quoteHalfTick : ℚ := 5 / 1000

def bpsUnit : ℚ := 10000

/-- `BrokerProfile`, with what `__post_init__` checks as fields. -/
structure BrokerProfile where
  initialCash : ℚ := 1000000
  commissionBps : ℚ := 1
  minCommissionCny : ℚ := 5
  stampDutySellBpsBeforeCutover : ℚ := 10
  stampDutySellBpsFromCutover : ℚ := 5
  transferFeeBps : ℚ := 1 / 10
  slippageBps : ℚ := 5
  maxTotalHoldings : Option Nat := none
  maxSingleNameWeight : Option ℚ := none
  dividendTax : Bool := false
  permittedBoards : Option (List Board) := none
  initialCash_pos : 0 < initialCash := by norm_num
  commissionBps_nonneg : 0 ≤ commissionBps := by norm_num
  minCommissionCny_nonneg : 0 ≤ minCommissionCny := by norm_num
  stampDutyBefore_nonneg : 0 ≤ stampDutySellBpsBeforeCutover := by norm_num
  stampDutyFrom_nonneg : 0 ≤ stampDutySellBpsFromCutover := by norm_num
  transferFeeBps_nonneg : 0 ≤ transferFeeBps := by norm_num
  slippageBps_nonneg : 0 ≤ slippageBps := by norm_num
  deriving DecidableEq

/-- The profile of the defaults. -/
def BrokerProfile.usual : BrokerProfile := {}

/-- One symbol's bar of one trading day. -/
structure Bar where
  opening : Option ℚ := none
  close : Option ℚ := none
  preClose : Option ℚ := none
  high : Option ℚ := none
  low : Option ℚ := none
  upLimit : Option ℚ := none
  downLimit : Option ℚ := none
  amount : Option ℚ := none
  vol : Option ℚ := none
  isSuspended : Bool := false
  deriving DecidableEq

/-- `Distribution`; a `none` bonus is a table that cannot tell it apart. -/
structure Distribution where
  cashPerShare : ℚ := 0
  bonusPerShare : Option ℚ := some 0
  recordDate : Option Nat := none
  deriving DecidableEq

/-- A held name; the dictionary it stands in has its symbol. -/
structure Position where
  quantity : Int
  availableQuantity : Int
  averageCost : ℚ
  lastPrice : ℚ
  deriving DecidableEq

def Position.marketValue (p : Position) : ℚ := p.quantity * p.lastPrice

/-- The cost the account still carries for the name. -/
def Position.basis (p : Position) : ℚ := p.averageCost * p.quantity

/-- The shares of one buy still held. -/
structure Lot where
  quantity : Int
  acquired : Nat
  dividendIncomeNew : ℚ := 0
  dividendIncomeOld : ℚ := 0
  deriving DecidableEq

/-- `CorporateAction`: one ex-date settlement as the broker applied it. -/
structure CorporateAction where
  tradeDate : Nat
  symbol : Symbol
  lastClose : ℚ
  preClose : ℚ
  cashPerShare : ℚ
  quantityBefore : Int
  quantityAfter : Int
  cashCredit : ℚ
  dividendTaxWithheld : ℚ
  deriving DecidableEq

/-- Why an order did not fill. `notTraded` is the owner's record. -/
inductive Reason where
  | boardNotPermitted | missingExecutionPrice | suspended | invalidBuyLot | maxHoldingsReached
  | singleNameWeightCap | insufficientAvailablePosition | lotRule (reject : ReduceReject)
  | missingDailyPriceLimit | dailyPriceLimit | unfilledPriceLimit | unfilledLocked
  | unfilledLimit | insufficientCash | notTraded
  deriving DecidableEq, Repr

inductive ExecutionStatus where
  | filled | rejected | unfilled
  deriving DecidableEq, Repr

structure Execution where
  symbol : Symbol
  action : OrderAction
  quantity : Int
  executeAt : Instant
  matchedAt : Instant
  status : ExecutionStatus
  price : Option ℚ := none
  commission : ℚ := 0
  stampDuty : ℚ := 0
  dividendTax : ℚ := 0
  realizedPnl : Option ℚ := none
  reason : Option Reason := none
  metadata : OrderMetadata := []
  session : Option OrderSession := none
  limitPrice : Option ℚ := none
  deriving DecidableEq

/-- What stops the broker. -/
inductive BrokerError where
  | taxNeedsDistributions (day : Nat)
  | noUsablePreClose (symbol : Symbol) (day : Nat)
  | noBonusPerShare (symbol : Symbol) (day : Nat)
  | invalidCashDividend (symbol : Symbol) (day : Nat) (value : ℚ)
  | invalidBonusShares (symbol : Symbol) (day : Nat) (value : ℚ)
  | invalidShareMultiplier (symbol : Symbol) (day : Nat) (lastClose preClose cash ratio : ℚ)
  | noWholeShare (symbol : Symbol) (day : Nat) (quantity : Int)
  | insufficientWithholdingCash (symbol : Symbol) (day : Nat) (withheld : ℚ)
  | dividendTax (error : DividendTaxError)
  | notionalNotPositive (notional : ℚ)
  | noTradingDay
  /-- A `KeyError`, `IndexError` or `ZeroDivisionError` on the lot ledger. -/
  | lotLedger (symbol : Symbol)
  | noPosition (symbol : Symbol)
  | lotLedgerMismatch
  deriving DecidableEq

/-- `_price`. -/
def price (value : Option ℚ) : Option ℚ := value.filter fun p => decide (0 < p)

namespace BrokerProfile

/-- `fill_price`; the prices it meets have passed `_price`. -/
def fillPrice (profile : BrokerProfile) (p : ℚ) (action : OrderAction) : ℚ :=
  match action with
  | .buy => p * (1 + profile.slippageBps / bpsUnit)
  | .sell => p * (1 - profile.slippageBps / bpsUnit)

def commission (profile : BrokerProfile) (notional : ℚ) : ℚ :=
  max (notional * profile.commissionBps / bpsUnit) profile.minCommissionCny

def transferFee (profile : BrokerProfile) (notional : ℚ) : ℚ :=
  notional * profile.transferFeeBps / bpsUnit

def tradeFee (profile : BrokerProfile) (notional : ℚ) : ℚ :=
  profile.commission notional + profile.transferFee notional

def stampDutyOnSale (profile : BrokerProfile) (notional : ℚ) (tradeDate : Nat) : ℚ :=
  let bps := if stampDutyCutover ≤ tradeDate then profile.stampDutySellBpsFromCutover
    else profile.stampDutySellBpsBeforeCutover
  notional * bps / bpsUnit

/-- Whether the account may buy on the board of `symbol`; a code on no board is
never in a permitted set. -/
def permits (profile : BrokerProfile) (symbol : Symbol) : Bool :=
  match profile.permittedBoards with
  | none => true
  | some permitted => (boardOf symbol).any (· ∈ permitted)

/-- `fees`: the trade fee and the stamp duty of one fill. -/
def fees (profile : BrokerProfile) (notional : ℚ) (action : OrderAction) (tradeDate : Nat) :
    Except BrokerError (ℚ × ℚ) :=
  if notional ≤ 0 then .error (.notionalNotPositive notional)
  else .ok (profile.tradeFee notional,
    if action = .sell then profile.stampDutyOnSale notional tradeDate else 0)

end BrokerProfile

/-- `DailyBroker`. Its list of executions is kept by its caller, who is returned
every row as it is recorded. -/
structure DailyBroker where
  profile : BrokerProfile
  cash : ℚ
  initialEquity : ℚ
  positions : Dict Symbol Position
  corporateActions : List CorporateAction
  lots : Dict Symbol (List Lot)
  currentDay : Option Nat
  deriving DecidableEq

/-- `DailyBroker(profile)`. -/
def DailyBroker.new (profile : BrokerProfile) : DailyBroker :=
  { profile, cash := profile.initialCash, initialEquity := profile.initialCash,
    positions := Dict.empty, corporateActions := [], lots := Dict.empty,
    currentDay := none }

/-- `_price_reset`. -/
def priceReset (lastClose preClose : ℚ) : Bool :=
  quoteHalfTick < round6 |preClose - lastClose|

/-- `ex_date_share_multiplier`; the outer `none` is its `ValueError`. -/
def exDateShareMultiplier (lastClose preClose cashPerShare : ℚ) : Option (Option ℚ) :=
  if priceReset lastClose preClose then
    let ratio := (lastClose - cashPerShare) / preClose
    if ratio ≤ 0 then none
    else if 0 < cashPerShare ∧ round6 (lastClose - cashPerShare - preClose) ≤ quoteHalfTick then
      some none
    else some (some ratio)
  else some none

/-- `ex_date_shares`. -/
def exDateShares (quantity : Int) (ratio : ℚ) : Int := ⌊round6 (quantity * ratio)⌋

/-- What one ex-date does to a holding, before the cash check. -/
structure ExDate where
  ratio : Option ℚ
  preClose : ℚ
  incomePerShare : ℚ
  oldRule : Bool
  quantityAfter : Int
  credit : ℚ
  withheld : ℚ
  lastPrice : ℚ
  deriving DecidableEq

/-- The position an ex-date leaves; the shares it creates stay locked for the day. -/
def ExDate.position (ex : ExDate) (before : Position) : Position :=
  { quantity := ex.quantityAfter
    availableQuantity := if ex.ratio.isSome then min before.availableQuantity ex.quantityAfter
      else before.availableQuantity
    averageCost := (before.averageCost * before.quantity - ex.credit) / ex.quantityAfter
    lastPrice := ex.lastPrice }

/-- The `CorporateAction` an ex-date is recorded as. -/
def ExDate.action (ex : ExDate) (symbol : Symbol) (day : Nat) (before : Position)
    (cashPerShare : ℚ) : CorporateAction :=
  { tradeDate := day, symbol, lastClose := before.lastPrice, preClose := ex.preClose, cashPerShare,
    quantityBefore := before.quantity, quantityAfter := ex.quantityAfter, cashCredit := ex.credit,
    dividendTaxWithheld := ex.withheld }

/-- The tax withheld on an ex-date's income, and whether the old rule holds it. -/
def exDateTax (dividendTax : Bool) (quantity : Int) (income : ℚ) (recordDate : Option Nat) :
    Except BrokerError (ℚ × Bool) :=
  if dividendTax && income ≠ 0 then
    match dividendTaxRule recordDate with
    | .error e => .error (.dividendTax e)
    | .ok rule => .ok (quantity * income * rule.withholdingRate, rule = AutoTrade.oldRule)
  else .ok (0, false)

/-- What the ex-date of a delivered `income` does; `none` when the day changes nothing. -/
def exDateEffect (symbol : Symbol) (day : Nat) (position : Position) (preClose cash income : ℚ)
    (ratio : Option ℚ) (withheld : ℚ) (oldRule : Bool) : Except BrokerError (Option ExDate) :=
  match ratio with
  | none =>
    if income = 0 then .ok none
    else
      .ok (some
        { ratio, preClose, incomePerShare := income, oldRule, quantityAfter := position.quantity,
          credit := position.quantity * cash, withheld,
          lastPrice := if priceReset position.lastPrice preClose then preClose
            else position.lastPrice })
  | some r =>
    let quantityAfter := exDateShares position.quantity r
    if quantityAfter ≤ 0 then .error (.noWholeShare symbol day position.quantity)
    else
      -- Whole shares only: the fractional share is paid in cash.
      .ok (some
        { ratio, preClose, incomePerShare := income, oldRule, quantityAfter,
          credit := position.quantity * position.lastPrice - quantityAfter * preClose, withheld,
          lastPrice := preClose })

/-- The part of `_settle_ex_date` that reads the bar and the distribution. -/
def exDateOf (dividendTax : Bool) (symbol : Symbol) (day : Nat) (position : Position) (bar : Bar)
    (distribution : Distribution) : Except BrokerError (Option ExDate) :=
  let cash := distribution.cashPerShare
  let bonus := distribution.bonusPerShare.getD 0
  match price bar.preClose with
  | none => .error (.noUsablePreClose symbol day)
  | some preClose =>
    if dividendTax && distribution.bonusPerShare.isNone then .error (.noBonusPerShare symbol day)
    else if cash < 0 then .error (.invalidCashDividend symbol day cash)
    else if bonus < 0 then .error (.invalidBonusShares symbol day bonus)
    else
      match exDateShareMultiplier position.lastPrice preClose cash with
      | none =>
        .error (.invalidShareMultiplier symbol day position.lastPrice preClose cash
          ((position.lastPrice - cash) / preClose))
      | some ratio =>
        -- Income is what is delivered: bonus shares count only where the reset grants them.
        let income := cash + if ratio.isSome then bonus * bonusSharePar else 0
        match exDateTax dividendTax position.quantity income distribution.recordDate with
        | .error e => .error e
        | .ok (withheld, oldRule) =>
          exDateEffect symbol day position preClose cash income ratio withheld oldRule

/-- `_settle_lots`: the income each lot receives, and the lots resized on their
running totals. -/
def settleLots (income : ℚ) (ratio : Option ℚ) (oldRule : Bool) :
    Int → Int → List Lot → List Lot
  | _, _, [] => []
  | held, settled, lot :: rest =>
    let received := lot.quantity * income
    let lot := if oldRule then { lot with dividendIncomeOld := lot.dividendIncomeOld + received }
      else { lot with dividendIncomeNew := lot.dividendIncomeNew + received }
    match ratio with
    | none =>
      let kept := settleLots income ratio oldRule held settled rest
      if 0 < lot.quantity then lot :: kept else kept
    | some r =>
      let held' := held + lot.quantity
      let settled' := exDateShares held' r
      let lot := { lot with quantity := settled' - settled }
      let kept := settleLots income ratio oldRule held' settled' rest
      if 0 < lot.quantity then lot :: kept else kept

namespace DailyBroker

/-- The lot ledger an ex-date leaves; only a taxed account keeps one. -/
def exDateLots (b : DailyBroker) (symbol : Symbol) (ex : ExDate) :
    Except BrokerError (Dict Symbol (List Lot)) :=
  if b.profile.dividendTax then
    match b.lots.get? symbol with
    | none => .error (.lotLedger symbol)
    | some lots =>
      .ok (b.lots.set symbol (settleLots ex.incomePerShare ex.ratio ex.oldRule 0 0 lots))
  else .ok b.lots

/-- The account an ex-date leaves, its record joining the corporate actions. -/
def withExDate (b : DailyBroker) (symbol : Symbol) (day : Nat) (position : Position)
    (cashPerShare : ℚ) (ex : ExDate) (lots : Dict Symbol (List Lot)) : DailyBroker :=
  { b with
    positions := b.positions.set symbol (ex.position position)
    cash := b.cash + (ex.credit - ex.withheld)
    lots
    corporateActions := b.corporateActions ++ [ex.action symbol day position cashPerShare] }

/-- `_settle_ex_date`, with the position `open_day` has just released. -/
def settleExDate (b : DailyBroker) (symbol : Symbol) (day : Nat) (position : Position) (bar : Bar)
    (distribution : Distribution) : Except BrokerError DailyBroker :=
  match exDateOf b.profile.dividendTax symbol day position bar distribution with
  | .error e => .error e
  | .ok none => .ok { b with positions := b.positions.set symbol position }
  | .ok (some ex) =>
    if b.cash + ex.credit < ex.withheld - 1 / 1000000000 then
      .error (.insufficientWithholdingCash symbol day ex.withheld)
    else
      match b.exDateLots symbol ex with
      | .error e => .error e
      | .ok lots => .ok (b.withExDate symbol day position distribution.cashPerShare ex lots)

/-- One pass of the loop of `open_day`: the T+1 release, then the ex-date. A
name without a bar has no ex-date to settle. -/
def openPosition (day : Nat) (bars : Symbol → Option Bar) (events : Symbol → Distribution)
    (b : DailyBroker) (entry : Symbol × Position) : Except BrokerError DailyBroker :=
  let released := { entry.2 with availableQuantity := entry.2.quantity }
  match bars entry.1 with
  | none => .ok { b with positions := b.positions.set entry.1 released }
  | some bar => b.settleExDate entry.1 day released bar (events entry.1)

/-- `open_day` on the authoritative `distributions`. -/
def openDay (b : DailyBroker) (day : Nat) (bars : Symbol → Option Bar)
    (events : Symbol → Distribution) : Except BrokerError DailyBroker :=
  if b.currentDay = some day then .ok b
  else b.positions.entries.foldlM (openPosition day bars events) { b with currentDay := some day }

/-- `_release_lots`: the shares taken first in first out, with the tax they owe
and the lots they leave. -/
def releaseLots (symbol : Symbol) (day : Nat) : Int → List Lot → Except BrokerError (ℚ × List Lot)
  | quantity, [] => if quantity = 0 then .ok (0, []) else .error (.lotLedger symbol)
  | quantity, lot :: rest =>
    if quantity = 0 then .ok (0, lot :: rest)
    else if lot.quantity = 0 then .error (.lotLedger symbol)
    else
      let taken := min quantity lot.quantity
      let oldIncome := lot.dividendIncomeOld * taken / lot.quantity
      let newIncome := lot.dividendIncomeNew * taken / lot.quantity
      match dividendTaxDue lot.acquired day oldIncome newIncome with
      | .error e => .error (.dividendTax e)
      | .ok due =>
        -- A lot that keeps shares has met the whole quantity.
        if lot.quantity - taken ≠ 0 then
          .ok (due, { lot with quantity := lot.quantity - taken,
                               dividendIncomeOld := lot.dividendIncomeOld - oldIncome,
                               dividendIncomeNew := lot.dividendIncomeNew - newIncome } :: rest)
        else
          match releaseLots symbol day (quantity - taken) rest with
          | .error e => .error e
          | .ok (tax, left) => .ok (due + tax, left)

/-- `_release_lots` on the ledger: a name without lots left leaves it. -/
def takeLots (b : DailyBroker) (symbol : Symbol) (day : Nat) (quantity : Int) :
    Except BrokerError (ℚ × Dict Symbol (List Lot)) :=
  match b.lots.get? symbol with
  | none => .error (.lotLedger symbol)
  | some lots =>
    match releaseLots symbol day quantity lots with
    | .error e => .error e
    | .ok (tax, []) => .ok (tax, b.lots.erase symbol)
    | .ok (tax, left) => .ok (tax, b.lots.set symbol left)

/-- `_single_name_cap_reject`. -/
def singleNameCapReject (b : DailyBroker) (symbol : Symbol) (shares : Int) (rawPrice : ℚ) :
    Option Reason :=
  match b.profile.maxSingleNameWeight with
  | none => none
  | some weight =>
    let held : ℚ := match b.positions.get? symbol with
      | some position => position.quantity * rawPrice
      | none => 0
    if weight * b.initialEquity + 1 / 1000000 < held + shares * rawPrice then
      some .singleNameWeightCap
    else none

/-- The end of `_reject_reason`: what the account and the lot rules say of the
order once the market has a price. -/
def orderReject (b : DailyBroker) (order : StrategyOrder) (raw : ℚ) : Option Reason :=
  match order.action with
  | .buy =>
    if !validBuyLot order.quantity order.symbol then some .invalidBuyLot
    else if b.profile.maxTotalHoldings.any (fun most =>
        (b.positions.get? order.symbol).isNone && most ≤ b.positions.entries.length) then
      some .maxHoldingsReached
    else b.singleNameCapReject order.symbol order.quantity raw
  | .sell =>
    match b.positions.get? order.symbol with
    | none => some .insufficientAvailablePosition
    | some position =>
      if position.availableQuantity < order.quantity then some .insufficientAvailablePosition
      else (reduceAmountReject order.quantity position.availableQuantity
        order.symbol).map .lotRule

/-- `_reject_reason`. -/
def rejectReason (b : DailyBroker) (order : StrategyOrder) (bar : Option Bar)
    (rawPrice : Option ℚ) : Option Reason :=
  -- The account's permission, settled before the market is looked at.
  if order.action = .buy ∧ ¬ b.profile.permits order.symbol then some .boardNotPermitted
  else
    match bar, price rawPrice with
    | none, _ => some .missingExecutionPrice
    | some bar, raw =>
      if bar.isSuspended then some .suspended
      else
        match raw with
        | none => some .missingExecutionPrice
        | some raw => b.orderReject order raw

/-- `_reaches_limit`. -/
def reachesLimit (p limit : ℚ) (action : OrderAction) : Bool :=
  match action with
  | .buy => limit - 1 / 1000000000 ≤ p
  | .sell => p ≤ limit + 1 / 1000000000

/-- `_fill_price`: the price the order fills at, or why it does not fill. -/
def fillPriceOf (profile : BrokerProfile) (order : StrategyOrder) (bar : Bar) (basePrice : ℚ) :
    Except Reason ℚ :=
  match price (if order.action = .buy then bar.upLimit else bar.downLimit) with
  | none => .error .missingDailyPriceLimit
  | some limit =>
    if order.session ≠ some .intraday then
      let p := profile.fillPrice basePrice order.action
      if reachesLimit p limit order.action then
        .error (if order.session = none then .dailyPriceLimit else .unfilledPriceLimit)
      else .ok p
    else
      match price bar.high, price bar.low with
      | some high, some low =>
        if |high - limit| < quoteHalfTick ∧ |low - limit| < quoteHalfTick then
          .error .unfilledLocked
        else
          match order.limitPrice with
          | none =>
            let p := profile.fillPrice basePrice order.action
            .ok (if order.action = .buy then min p limit else max p limit)
          | some limitPrice =>
            let reached := if order.action = .buy then decide (low ≤ limitPrice + quoteHalfTick)
              else decide (limitPrice - quoteHalfTick ≤ high)
            if reached then .ok basePrice else .error .unfilledLimit
      | _, _ => .error .missingExecutionPrice

/-- The execution `_record` builds for an order that did not fill. -/
def rejection (order : StrategyOrder) (matchedAt : Instant) (reason : Reason) : Execution :=
  { symbol := order.symbol, action := order.action, quantity := order.quantity,
    executeAt := order.executeAt, matchedAt, status := .rejected, reason := some reason,
    metadata := order.metadata, session := order.session, limitPrice := order.limitPrice }

/-- The execution `_record` builds for a fill. -/
def fill (order : StrategyOrder) (matchedAt : Instant) (p commission stampDuty dividendTax : ℚ)
    (realizedPnl : Option ℚ) : Execution :=
  { symbol := order.symbol, action := order.action, quantity := order.quantity,
    executeAt := order.executeAt, matchedAt, status := .filled, price := some p, commission,
    stampDuty, dividendTax, realizedPnl, metadata := order.metadata, session := order.session,
    limitPrice := order.limitPrice }

/-- The position a buy of `quantity` for `requiredCash` leaves. -/
def boughtPosition (existing : Option Position) (quantity : Int) (requiredCash p : ℚ) : Position :=
  match existing with
  | none =>
    { quantity, availableQuantity := 0, averageCost := requiredCash / quantity, lastPrice := p }
  | some held =>
    { held with
      quantity := held.quantity + quantity
      averageCost := (held.averageCost * held.quantity + requiredCash) /
        ((held.quantity + quantity : Int) : ℚ)
      lastPrice := p }

/-- The buy branch of `execute`; `none` when the cash does not cover it. -/
def buy (b : DailyBroker) (order : StrategyOrder) (day : Nat) (p requiredCash : ℚ) :
    Option DailyBroker :=
  if b.cash + 1 / 1000000000 < requiredCash then none
  else some { b with
    cash := b.cash - requiredCash
    lots := if b.profile.dividendTax then
        b.lots.set order.symbol ((b.lots.get? order.symbol).getD [] ++ [⟨order.quantity, day, 0, 0⟩])
      else b.lots
    positions := b.positions.set order.symbol
      (boughtPosition (b.positions.get? order.symbol) order.quantity requiredCash p) }

/-- The tax a sale owes and the lots it leaves; only a taxed account keeps lots. -/
def saleLots (b : DailyBroker) (symbol : Symbol) (day : Nat) (quantity : Int) :
    Except BrokerError (ℚ × Dict Symbol (List Lot)) :=
  if b.profile.dividendTax then b.takeLots symbol day quantity else .ok (0, b.lots)

/-- What a sale leaves of a position, `none` once nothing is left. -/
def soldPosition (position : Position) (quantity : Int) (p : ℚ) : Option Position :=
  if position.quantity - quantity = 0 then none
  else some
    { position with quantity := position.quantity - quantity,
                    availableQuantity := position.availableQuantity - quantity,
                    lastPrice := p }

/-- `symbol` at `position`, or gone from the account. -/
def withPosition (b : DailyBroker) (symbol : Symbol) (position : Option Position) : DailyBroker :=
  { b with positions := match position with
      | none => b.positions.erase symbol
      | some p => b.positions.set symbol p }

/-- The sell branch of `execute`: the broker left, the tax paid and the P&L realized. -/
def sell (b : DailyBroker) (order : StrategyOrder) (day : Nat)
    (p notional commission stampDuty : ℚ) : Except BrokerError (DailyBroker × ℚ × ℚ) :=
  match b.positions.get? order.symbol with
  | none => .error (.noPosition order.symbol)
  | some position =>
    match b.saleLots order.symbol day order.quantity with
    | .error e => .error e
    | .ok (tax, lots) =>
      let proceeds := notional - commission - stampDuty - tax
      .ok ({ b with cash := b.cash + proceeds, lots }.withPosition order.symbol
          (soldPosition position order.quantity p),
        tax, proceeds - position.averageCost * order.quantity)

/-- The fill of an order at `p`, the end of `execute`. -/
def fillAt (b : DailyBroker) (order : StrategyOrder) (matchedAt : Instant) (p : ℚ) :
    Except BrokerError (DailyBroker × Execution) :=
  match b.currentDay with
  | none => .error .noTradingDay
  | some day =>
    match b.profile.fees (p * order.quantity) order.action day with
    | .error e => .error e
    | .ok (commission, stampDuty) =>
      match order.action with
      | .buy =>
        match b.buy order day p (p * order.quantity + commission) with
        | none => .ok (b, rejection order matchedAt .insufficientCash)
        | some bought =>
          .ok (bought, fill order matchedAt p commission stampDuty 0 none)
      | .sell =>
        match b.sell order day p (p * order.quantity) commission stampDuty with
        | .error e => .error e
        | .ok (sold, tax, realized) =>
          .ok (sold, fill order matchedAt p commission stampDuty tax (some realized))

/-- `execute`. -/
def execute (b : DailyBroker) (order : StrategyOrder) (bar : Option Bar) (matchedAt : Instant)
    (rawPrice : Option ℚ) : Except BrokerError (DailyBroker × Execution) :=
  match b.rejectReason order bar rawPrice, bar, price rawPrice with
  | some reason, _, _ => .ok (b, rejection order matchedAt reason)
  | none, some bar, some basePrice =>
    match fillPriceOf b.profile order bar basePrice with
    | .error reason => .ok (b, rejection order matchedAt reason)
    | .ok p => b.fillAt order matchedAt p
  -- `_reject_reason` has refused an order without a bar or a price.
  | none, _, _ => .ok (b, rejection order matchedAt .missingExecutionPrice)

def markPosition (bars : Symbol → Option Bar) (symbol : Symbol) (position : Position) : Position :=
  match bars symbol with
  | none => position
  | some bar =>
    match price bar.close with
    | none => position
    | some p => { position with lastPrice := p }

/-- `mark` at the close. -/
def mark (b : DailyBroker) (bars : Symbol → Option Bar) : DailyBroker :=
  { b with positions := b.positions.mapValues (markPosition bars) }

def equity (b : DailyBroker) : ℚ := b.cash + b.positions.sum fun _ p => p.marketValue

/-- A dictionary's bindings in key order. -/
def sortedEntries {α : Type} (d : Dict Symbol α) : List (Symbol × α) :=
  d.entries.insertionSort fun x y => x.1 ≤ y.1

/-- `account_snapshot`. -/
def accountSnapshot (b : DailyBroker) : ℚ × List (Symbol × Int) :=
  (b.cash, (sortedEntries b.positions).map fun entry => (entry.1, entry.2.quantity))

/-- A dictionary rebuilt in key order, as a checkpoint writes it. -/
def sortedDict {α : Type} (d : Dict Symbol α) : Dict Symbol α :=
  d.reorder (sortedEntries d) (List.perm_insertionSort _ _)

/-- `lot_records`. -/
def lotRecords (b : DailyBroker) : Dict Symbol (List Lot) := sortedDict b.lots

/-- The quantities `restore_lots` expects the ledger to add up to. -/
def expectedLots (b : DailyBroker) : Dict Symbol Int :=
  if b.profile.dividendTax then b.positions.mapValues fun _ p => p.quantity else Dict.empty

/-- `restore_lots` on complete rows. -/
def restoreLots (b : DailyBroker) (records : Dict Symbol (List Lot)) :
    Except BrokerError DailyBroker :=
  let rows := records.values.flatten
  let held := records.mapValues fun _ lots => (lots.map Lot.quantity).sum
  if rows.any (fun lot => lot.dividendIncomeNew < 0 || lot.dividendIncomeOld < 0) then
    .error .lotLedgerMismatch
  else if ¬ held.entries.Perm b.expectedLots.entries ∨ rows.any (fun lot => lot.quantity ≤ 0) then
    .error .lotLedgerMismatch
  else .ok { b with lots := records }

end DailyBroker

/-- `session_price`: the price a session order meets on its day's bar. -/
def sessionPrice (session : OrderSession) (order : StrategyOrder) (bar : Bar) : Option ℚ :=
  match session with
  | .atOpen => price bar.opening
  | .atClose => price bar.close
  | .intraday =>
    match order.limitPrice with
    | none =>
      match price bar.amount, price bar.vol with
      | some amount, some volume => some (amount / volume)
      | _, _ => none
    | some limit =>
      (price bar.opening).map fun opening =>
        if order.action = .buy then min opening limit else max opening limit

end AutoTrade
