import AutoTrade.Environment.Proofs.BrokerClosure

/-!
# The accounting of the simulated broker

Every operation of the broker moves its cash and the cost of its positions by
what it journals: the fills and the ex-date settlements explain the account to
the last cent, and what the account carries is what it realized.
-/

namespace AutoTrade

namespace DailyBroker

/-- `mark` of one position at a field of its bar. -/
def markPositionBy (field : Bar → Option ℚ) (bars : Symbol → Option Bar) (symbol : Symbol)
    (position : Position) : Position :=
  match bars symbol with
  | none => position
  | some bar =>
    match price (field bar) with
    | none => position
    | some p => { position with lastPrice := p }

/-- `mark` at the price of a `price_field`. -/
def markBy (b : DailyBroker) (field : Bar → Option ℚ) (bars : Symbol → Option Bar) : DailyBroker :=
  { b with positions := b.positions.mapValues (markPositionBy field bars) }

end DailyBroker

/-- An operation on the broker. -/
inductive BrokerOp where
  | openDay (day : Nat) (bars : Symbol → Option Bar) (events : Symbol → Distribution)
  | mark (field : Bar → Option ℚ) (bars : Symbol → Option Bar)
  | execute (order : StrategyOrder) (bar : Option Bar) (matchedAt : Instant) (rawPrice : Option ℚ)

/-- The broker with the executions it has recorded. -/
structure BrokerRun where
  broker : DailyBroker
  executions : List Execution

namespace BrokerRun

def new (profile : BrokerProfile) : BrokerRun := ⟨DailyBroker.new profile, []⟩

/-- One operation; an operation that raises ends the run. -/
def step (s : BrokerRun) : BrokerOp → Except BrokerError BrokerRun
  | .openDay day bars events => (s.broker.openDay day bars events).map fun b => { s with broker := b }
  | .mark field bars => .ok { s with broker := s.broker.markBy field bars }
  | .execute order bar matchedAt rawPrice =>
    (s.broker.execute order bar matchedAt rawPrice).map fun executed =>
      ⟨executed.1, s.executions ++ [executed.2]⟩

/-- The operations one after another, on a new account. -/
def ofOps (profile : BrokerProfile) (ops : List BrokerOp) : Except BrokerError BrokerRun :=
  ops.foldlM step (new profile)

end BrokerRun

/-- What a fill pays or brings in. -/
def Execution.cashFlow (e : Execution) : ℚ :=
  if e.status = .filled then
    match e.action with
    | .buy => -(e.price.getD 0 * e.quantity + e.commission)
    | .sell => e.price.getD 0 * e.quantity - e.commission - e.stampDuty - e.dividendTax
  else 0

/-- What an ex-date credits, net of the tax withheld. -/
def CorporateAction.cashFlow (action : CorporateAction) : ℚ :=
  action.cashCredit - action.dividendTaxWithheld

/-- The account is what its journals say of it. -/
structure Balanced (s : BrokerRun) (initialCash : ℚ) : Prop where
  sound : s.broker.Sound
  cash_eq : s.broker.cash = initialCash + (s.executions.map Execution.cashFlow).sum +
    (s.broker.corporateActions.map CorporateAction.cashFlow).sum
  carried_eq : s.broker.carried = initialCash + (s.executions.map DailyBroker.realizedBy).sum -
    DailyBroker.withheldBy s.broker.corporateActions

namespace DailyBroker

/-- The cash of an account moves with the corporate actions it records. -/
def PaidFrom (start b : DailyBroker) : Prop :=
  ∃ actions, b.corporateActions = start.corporateActions ++ actions ∧
    b.cash = start.cash + (actions.map CorporateAction.cashFlow).sum

variable {bars : Symbol → Option Bar} {events : Symbol → Distribution}

theorem openPosition_cash {start b b' : DailyBroker} {day : Nat} {symbol : Symbol}
    {position : Position} (paid : PaidFrom start b)
    (h : openPosition day bars events b (symbol, position) = .ok b') :
    PaidFrom start b' := by
  obtain ⟨actions, recorded, cash⟩ := paid
  rcases openPosition_cases h with rfl | ⟨bar, ex, lots, -, -, -, rfl⟩
  · exact ⟨actions, recorded, cash⟩
  · refine ⟨actions ++ [ex.action symbol day (released position) (events symbol).cashPerShare],
      ?_, ?_⟩
    · show b.corporateActions ++ _ = _
      rw [recorded, List.append_assoc]
    · show b.cash + (ex.credit - ex.withheld) = _
      rw [cash, List.map_append, List.sum_append, List.map_singleton, List.sum_singleton]
      show _ = start.cash + (_ + (ex.credit - ex.withheld))
      ring

variable {b b' : DailyBroker}

theorem openDay_cash {day : Nat} (h : b.openDay day bars events = .ok b') : PaidFrom b b' := by
  apply openDay_invariant (P := PaidFrom b) _ _ h
  · exact ⟨[], by simp, by simp⟩
  · intro c paid
    exact paid
  · intro c c' symbol position paid _ step
    exact openPosition_cash paid step

theorem markPositionBy_basis (field : Bar → Option ℚ) (bars : Symbol → Option Bar) (symbol : Symbol)
    (p : Position) : (markPositionBy field bars symbol p).basis = p.basis := by
  unfold markPositionBy
  split
  · rfl
  · split <;> rfl

variable {field : Bar → Option ℚ}

theorem markPositionBy_sound {symbol : Symbol} {p : Position} (sound : p.Sound) :
    (markPositionBy field bars symbol p).Sound := by
  unfold markPositionBy
  split
  · exact sound
  · split
    · exact sound
    · exact ⟨sound.quantity_pos, sound.available_le⟩

theorem markBy_carried (b : DailyBroker) (field : Bar → Option ℚ) (bars : Symbol → Option Bar) :
    (b.markBy field bars).carried = b.carried := by
  simp only [markBy, carried, Dict.sum_mapValues, markPositionBy_basis]

theorem markBy_sound {b : DailyBroker} (sound : b.Sound) : (b.markBy field bars).Sound := by
  intro symbol p found
  simp only [markBy, Dict.get?_mapValues, Option.map_eq_some_iff] at found
  obtain ⟨q, held, rfl⟩ := found
  exact markPositionBy_sound (sound symbol q held)

theorem fillAt_cash {order : StrategyOrder} {matchedAt : Instant} {p : ℚ} {e : Execution}
    (h : b.fillAt order matchedAt p = .ok (b', e)) :
    b'.cash = b.cash + e.cashFlow := by
  obtain ⟨day, commission, stampDuty, -, -, cases⟩ := fillAt_cases h
  rcases cases with ⟨-, -, left⟩ | ⟨bought, buys, made, left⟩ |
    ⟨sold, tax, realized, sells, made, left⟩ <;>
    simp only [Prod.mk.injEq] at left <;> obtain ⟨rfl, rfl⟩ := left
  · simp [Execution.cashFlow, rejection]
  · obtain ⟨-, rfl⟩ := buy_eq_some made
    simp only [Execution.cashFlow, fill, buys, if_true, Option.getD_some]
    ring
  · obtain ⟨position, lots, -, -, -, rfl⟩ := sell_eq_ok made
    simp only [Execution.cashFlow, fill, sells, if_true, Option.getD_some]
    rfl

theorem execute_cash {order : StrategyOrder} {bar : Option Bar} {matchedAt : Instant}
    {rawPrice : Option ℚ} {e : Execution}
    (h : b.execute order bar matchedAt rawPrice = .ok (b', e)) :
    b'.cash = b.cash + e.cashFlow := by
  rcases execute_cases h with ⟨reason, left⟩ | ⟨dayBar, base, p, -, -, -, -, filled⟩
  · simp only [Prod.mk.injEq] at left
    obtain ⟨rfl, rfl⟩ := left
    simp [Execution.cashFlow, rejection]
  · exact fillAt_cash filled

end DailyBroker

open DailyBroker

namespace BrokerRun

theorem new_balanced (profile : BrokerProfile) : Balanced (new profile) profile.initialCash := by
  refine ⟨?_, ?_, ?_⟩
  · intro symbol p found
    cases found
  · simp [new, DailyBroker.new]
  · simp [new, DailyBroker.new, carried, Dict.sum, withheldBy]

variable {initialCash : ℚ} {s : BrokerRun}

theorem openDay_balanced {b : DailyBroker} {day : Nat} {bars : Symbol → Option Bar}
    {events : Symbol → Distribution} (balanced : Balanced s initialCash)
    (h : s.broker.openDay day bars events = .ok b) :
    Balanced { s with broker := b } initialCash := by
  obtain ⟨sound, actions, recorded, carries⟩ := openDay_carried balanced.sound h
  obtain ⟨actions', recorded', paid⟩ := openDay_cash h
  obtain rfl : actions = actions' := List.append_cancel_left (recorded.symm.trans recorded')
  refine ⟨sound, ?_, ?_⟩
  · show b.cash = _
    rw [paid, balanced.cash_eq, recorded, List.map_append, List.sum_append]
    ring
  · show b.carried = _
    rw [carries, balanced.carried_eq, recorded]
    simp only [withheldBy, List.map_append, List.sum_append]
    ring

theorem markBy_balanced (balanced : Balanced s initialCash) (field : Bar → Option ℚ)
    (bars : Symbol → Option Bar) :
    Balanced { s with broker := s.broker.markBy field bars } initialCash :=
  ⟨markBy_sound balanced.sound, balanced.cash_eq,
    (markBy_carried s.broker field bars).trans balanced.carried_eq⟩

theorem execute_balanced {b : DailyBroker} {e : Execution} {order : StrategyOrder}
    {bar : Option Bar} {matchedAt : Instant} {rawPrice : Option ℚ}
    (balanced : Balanced s initialCash)
    (h : s.broker.execute order bar matchedAt rawPrice = .ok (b, e)) :
    Balanced ⟨b, s.executions ++ [e]⟩ initialCash := by
  obtain ⟨sound, carries⟩ := execute_carried balanced.sound h
  have actions : b.corporateActions = s.broker.corporateActions :=
    (execute_frame h).corporateActions_eq
  refine ⟨sound, ?_, ?_⟩
  · show b.cash = _
    rw [execute_cash h, balanced.cash_eq, actions, List.map_append, List.sum_append,
      List.map_singleton, List.sum_singleton]
    ring
  · show b.carried = _
    rw [carries, balanced.carried_eq, actions, List.map_append, List.sum_append,
      List.map_singleton, List.sum_singleton]
    ring

theorem step_balanced {s s' : BrokerRun} {op : BrokerOp} (h : s.step op = .ok s')
    (balanced : Balanced s initialCash) : Balanced s' initialCash := by
  cases op with
  | openDay day bars events =>
    obtain ⟨b, opened, rfl⟩ := except_map_eq_ok.mp h
    exact openDay_balanced balanced opened
  | mark field bars =>
    obtain rfl := Except.ok.inj h
    exact markBy_balanced balanced field bars
  | execute order bar matchedAt rawPrice =>
    obtain ⟨⟨b, e⟩, executed, rfl⟩ := except_map_eq_ok.mp h
    exact execute_balanced balanced executed

theorem ofOps_balanced {profile : BrokerProfile} {ops : List BrokerOp}
    (h : ofOps profile ops = .ok s) : Balanced s profile.initialCash :=
  foldlM_invariant (P := fun s => Balanced s profile.initialCash)
    (fun _ _ _ _ step before => step_balanced step before) h (new_balanced profile)

end BrokerRun

/-- What a list of executions paid for what it bought. -/
def paidFor (executions : List Execution) : ℚ :=
  ((executions.filter fun e => e.status = .filled ∧ e.action = .buy).map
    fun e => (e.price.getD 0 * e.quantity + e.commission : ℚ)).sum

/-- What a list of executions brought in for what it sold. -/
def broughtIn (executions : List Execution) : ℚ :=
  ((executions.filter fun e => e.status = .filled ∧ e.action = .sell).map
    fun e => (e.price.getD 0 * e.quantity - e.commission - e.stampDuty - e.dividendTax : ℚ)).sum

/-- The P&L the filled sells of a list realized. -/
def realizedOn (executions : List Execution) : ℚ :=
  ((executions.filterMap Execution.realizedPnl)).sum

theorem sum_cashFlow (executions : List Execution) :
    (executions.map Execution.cashFlow).sum = broughtIn executions - paidFor executions := by
  induction executions with
  | nil => simp [broughtIn, paidFor]
  | cons e rest ih =>
    rw [List.map_cons, List.sum_cons, ih]
    unfold broughtIn paidFor Execution.cashFlow
    by_cases filled : e.status = .filled
    · cases side : e.action <;> simp [filled, side] <;> ring
    · simp [filled]

theorem sum_realizedBy (executions : List Execution) :
    (executions.map realizedBy).sum = realizedOn executions := by
  induction executions with
  | nil => rfl
  | cons e rest ih =>
    rw [List.map_cons, List.sum_cons, ih]
    unfold realizedOn realizedBy
    cases pnl : e.realizedPnl <;> simp [pnl]

/-- In every state the broker reaches, its fills and corporate actions explain
its cash, and its cash and cost are what it started with and realized. -/
theorem broker_accounts (profile : BrokerProfile) (ops : List BrokerOp) (s : BrokerRun)
    (h : BrokerRun.ofOps profile ops = .ok s) :
    s.broker.cash = profile.initialCash - paidFor s.executions + broughtIn s.executions +
        (s.broker.corporateActions.map fun a => a.cashCredit - a.dividendTaxWithheld).sum ∧
      s.broker.cash + (s.broker.positions.sum fun _ p => (p.averageCost * p.quantity : ℚ)) =
        profile.initialCash + realizedOn s.executions -
          (s.broker.corporateActions.map CorporateAction.dividendTaxWithheld).sum := by
  have balanced := BrokerRun.ofOps_balanced h
  constructor
  · rw [balanced.cash_eq, sum_cashFlow]
    show _ = _ + (s.broker.corporateActions.map CorporateAction.cashFlow).sum
    ring
  · have carries := balanced.carried_eq
    rw [sum_realizedBy] at carries
    exact carries

/-- A lot bought at 10, a dividend of half a yuan a share, the lot sold at 9.6. -/
def roundTrip : List BrokerOp :=
  let lot (action : OrderAction) (day : Nat) : StrategyOrder :=
    { symbol := "600000.SH", action, quantity := 100, executeAt := Instant.atMinute day 570 Instant.open_lt,
      metadata := [], session := none, limitPrice := none, quantity_pos := roundLot_pos }
  let bar (preClose opening : ℚ) : Bar :=
    { opening := some opening, close := some opening, preClose := some preClose,
      upLimit := some 11, downLimit := some 9 }
  [.openDay 20240102 (fun _ => some (bar 10 10)) fun _ => {},
    .execute (lot .buy 20240102) (some (bar 10 10)) (Instant.atMinute 20240102 570 Instant.open_lt)
      (some 10),
    .mark Bar.close fun _ => some (bar 10 10),
    .openDay 20240103 (fun _ => some (bar (95 / 10) (96 / 10))) fun _ => { cashPerShare := 5 / 10 },
    .execute (lot .sell 20240103) (some (bar (95 / 10) (96 / 10)))
      (Instant.atMinute 20240103 570 Instant.open_lt) (some (96 / 10))]

/-- The round trip is booked: two fills, a dividend of 50, and the cash they come to. -/
theorem round_trip_accounts : ∃ s, BrokerRun.ofOps {} roundTrip = .ok s ∧
    (s.executions.map Execution.status = [.filled, .filled]) ∧
    (s.broker.corporateActions.map CorporateAction.cashCredit = [50]) ∧
    s.broker.cash = 1000000 - paidFor s.executions + broughtIn s.executions +
      (s.broker.corporateActions.map fun a => a.cashCredit - a.dividendTaxWithheld).sum := by
  have booked : ∃ s ∈ (BrokerRun.ofOps {} roundTrip).toOption,
      s.executions.map Execution.status = [.filled, .filled] ∧
        s.broker.corporateActions.map CorporateAction.cashCredit = [50] := by
    decide +kernel
  obtain ⟨s, done, fills, credits⟩ := booked
  have run : BrokerRun.ofOps {} roundTrip = .ok s := by
    cases left : BrokerRun.ofOps {} roundTrip with
    | ok s' =>
      rw [left] at done
      exact congrArg Except.ok (Option.some.inj done)
    | error e =>
      rw [left] at done
      cases done
  exact ⟨s, run, fills, credits, (broker_accounts {} roundTrip s run).1⟩

end AutoTrade
