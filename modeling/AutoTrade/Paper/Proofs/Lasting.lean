import AutoTrade.Paper.Proofs.Booking

/-!
# What a settled session leaves to correct

Settled, a session leaves nothing to correct where every order stands recorded
under the session as it does under its own date, and where a taxed sale that
stands as simulated took the shares the simulator took. `UpToDate` is what is
left: the figures booked are the figures the record asks for.
-/

namespace AutoTrade

open DailyBroker

/-- Whether the order's own record lets the simulator stand for it. -/
def asSimulated (records : Records) (late : List Nat) (order : StrategyOrder) : Bool :=
  (resolve records (orderSession order) (orderKey order) true (orderSession order ∈ late)).any
    fun record => record.outcome = .simulated

/-- A sale of the name. -/
def isSale (symbol : Symbol) (order : StrategyOrder) : Bool :=
  order.action = .sell && order.symbol = symbol

def RecordOutcome.isFilled : RecordOutcome → Bool
  | .filled _ => true
  | _ => false

/-- Whether a fill is recorded for the key under the session. -/
def recordsFill (records : Records) (day : Nat) (key : OrderKey) : Bool :=
  (records.fills.get? (day, key)).any fun record => record.outcome.isFilled

/-- The sales of a name go ahead as they were simulated: in placement order,
what stands as simulated before what does not, and before any recorded trade
off the sheet. -/
structure SalesInStep (records : Records) (late : List Nat) (day : Nat) (due : List StrategyOrder)
    (symbol : Symbol) : Prop where
  placed : (due.filter (isSale symbol)).Pairwise fun x y =>
    (orderKey x).clock ≤ (orderKey y).clock ∧
      (asSimulated records late y = true → asSimulated records late x = true)
  offSheet : ∀ key ∈ records.keys day, key ∉ due.map orderKey → key.action = .sell →
    key.symbol = symbol → recordsFill records day key = true →
    ∀ x ∈ due, isSale symbol x = true → asSimulated records late x = true →
      (orderKey x).clock ≤ key.clock

instance (records : Records) (late : List Nat) (day : Nat) (due : List StrategyOrder)
    (symbol : Symbol) : Decidable (SalesInStep records late day due symbol) :=
  decidable_of_iff (_ ∧ _) ⟨fun h => ⟨h.1, h.2⟩, fun h => ⟨h.placed, h.offSheet⟩⟩

/-- What a session must meet so that its ledger needs no correction of its own. -/
structure Lasts (records : Records) (late : List Nat) (day : Nat) (opened : DailyBroker)
    (due : List StrategyOrder) : Prop where
  /-- A record of the key under the session says what its order settles with. -/
  dated : ∀ order ∈ due, ∀ own ∈ resolve records (orderSession order) (orderKey order) true
      (orderSession order ∈ late),
    ∀ record ∈ resolve records day (orderKey order) true (day ∈ late), own.outcome = record.outcome
  /-- On a taxed account a sale that stands as simulated sells what the simulator sold. -/
  taxed : opened.profile.dividendTax = true → ∀ order ∈ due, order.action = .sell →
    asSimulated records late order = true →
    (∀ lot ∈ opened.lotsOf order.symbol, lot.hasIncome = false) ∨
      SalesInStep records late day due order.symbol

instance (records : Records) (late : List Nat) (day : Nat) (opened : DailyBroker)
    (due : List StrategyOrder) : Decidable (Lasts records late day opened due) :=
  decidable_of_iff (_ ∧ _) ⟨fun h => ⟨h.1, h.2⟩, fun h => ⟨h.dated, h.taxed⟩⟩

/-- What an execution adds to the outcome of its key. -/
structure TradeFigures where
  filled : Bool
  quantity : Int
  price : Option ℚ
  commission : ℚ
  stampDuty : ℚ
  dividendTax : ℚ

def Execution.figures (e : Execution) : TradeFigures :=
  ⟨e.isFilled, e.quantity, e.price, e.commission, e.stampDuty, e.dividendTax⟩

theorem filled_map_figures {α : Type} (executions : List Execution) (g : TradeFigures → α) :
    (executions.filter Execution.isFilled).map (fun e => g e.figures) =
      ((executions.map Execution.figures).filter TradeFigures.filled).map g := by
  rw [List.filter_map, List.map_map]
  rfl

theorem outcome_same {executions executions' : List Execution}
    (h : executions.map Execution.figures = executions'.map Execution.figures) :
    same (outcome executions) (outcome executions') = true := by
  have sums : ∀ g : TradeFigures → ℚ,
      ((executions.filter Execution.isFilled).map fun e => g e.figures).sum =
        ((executions'.filter Execution.isFilled).map fun e => g e.figures).sum := by
    intro g
    rw [filled_map_figures, filled_map_figures, h]
  have shares : ((executions.filter Execution.isFilled).map Execution.quantity).sum =
      ((executions'.filter Execution.isFilled).map Execution.quantity).sum := by
    have := filled_map_figures executions TradeFigures.quantity
    have := filled_map_figures executions' TradeFigures.quantity
    simp_all [Execution.figures]
  have notional := sums fun f => f.price.getD 0 * f.quantity
  have commission := sums TradeFigures.commission
  have stampDuty := sums TradeFigures.stampDuty
  have dividendTax := sums TradeFigures.dividendTax
  unfold same
  refine decide_eq_true ⟨shares, ?_⟩
  have close : ∀ x y : ℚ, x = y → |x - y| < cent := fun x y equal => by
    rw [equal, sub_self, abs_zero]
    norm_num [cent]
  exact ⟨close _ _ notional, close _ _ commission, close _ _ stampDuty, close _ _ dividendTax⟩

/-- What the execution of a key recorded as anything but simulated has to be. -/
def StandsFor (profile : BrokerProfile) (day : Nat) (key : OrderKey) (outcome : RecordOutcome)
    (e : Execution) : Prop :=
  match outcome with
  | .filled fill =>
    e.isFilled = true ∧ e.quantity = fill.quantity ∧ e.price = some fill.price ∧
      0 < fill.price * fill.quantity ∧
      e.commission = fill.commission.getD (profile.tradeFee (fill.price * fill.quantity)) ∧
      e.stampDuty = if key.action = .sell then
        profile.stampDutyOnSale (fill.price * fill.quantity) day else 0
  | _ => e.isFilled = false

/-- The record of a session asks for nothing the ledger does not hold. -/
def UpToDate (profile : BrokerProfile) (records : Records) (late : List Nat) (session : Nat)
    (key : OrderKey) (entry : Entry) : Prop :=
  ∀ record, resolve records session key (entry.ordered ≠ 0) (session ∈ late) = some record →
    ∃ target, targetOutcome profile session key record entry = .ok target ∧
      same entry.real target = true

theorem upToDate_of_standsFor {profile : BrokerProfile} {day : Nat} {key : OrderKey}
    {record : Record} {e : Execution} {entry : Entry}
    (stands : StandsFor profile day key record.outcome e)
    (other : record.outcome ≠ .simulated) (real : entry.real = outcome [e]) :
    ∃ target, targetOutcome profile day key record entry = .ok target ∧
      same entry.real target = true := by
  unfold targetOutcome
  cases said : record.outcome with
  | simulated => exact absurd said other
  | notTraded =>
    rw [said] at stands
    refine ⟨nothing, rfl, ?_⟩
    have none : e.isFilled = false := stands
    rw [real]
    refine decide_eq_true ?_
    simp [nothing, outcome, none, cent]
  | filled fill =>
    rw [said] at stands
    obtain ⟨filled, quantity, priced, positive, commission, stamp⟩ := stands
    have fees : profile.fees (fill.price * fill.quantity) key.action day =
        .ok (profile.tradeFee (fill.price * fill.quantity),
          if key.action = .sell then profile.stampDutyOnSale (fill.price * fill.quantity) day
          else 0) := by
      rw [BrokerProfile.fees, if_neg (not_le.mpr positive)]
    dsimp only
    rw [fees]
    refine ⟨_, rfl, decide_eq_true ?_⟩
    have count : entry.real.quantity = fill.quantity := by
      simp [real, outcome, filled, quantity]
    rw [if_pos count.symm]
    refine ⟨count, ?_, ?_, ?_, ?_⟩
    · simp [real, outcome, filled, Execution.notional, priced, quantity, cent]
    · simp [real, outcome, filled, commission, cent]
    · simp [real, outcome, filled, stamp, cent]
    · simp [cent]

section Steps

variable {records : Records} {late : List Nat} {day : Nat} {simulated : List Simulated}
  {profile : BrokerProfile} {curve : Symbol → Int → ℚ}

/-- The executions booked so far. -/
def Applying.executions (s : Applying) : List Execution := s.booked.map fun entry => entry.2.execution

/-- A session in progress runs along the morning's curves. -/
structure Applying.AlongOf (day : Nat) (profile : BrokerProfile) (curve : Symbol → Int → ℚ)
    (s : Applying) : Prop where
  along : Along day curve s.executions s.broker
  profile_eq : s.broker.profile = profile

theorem recordedRow_cases {b b' : DailyBroker} {order : StrategyOrder} {ordered : Int}
    {record : Record} {row : ExecutionRow} (today : b.currentDay = some day)
    (positive : ∀ symbol, ∀ lot ∈ b.lotsOf symbol, 0 < lot.quantity)
    (other : record.outcome ≠ .simulated)
    (h : recordedRow b order ordered record = .ok (b', row)) :
    Traded day b b' row.execution ∧ b'.profile = b.profile ∧ row.execution.symbol = order.symbol ∧
      row.execution.action = order.action ∧
      StandsFor b.profile day (orderKey order) record.outcome row.execution := by
  unfold recordedRow at h
  cases said : record.outcome with
  | simulated => exact absurd said other
  | notTraded =>
    rw [said] at h
    obtain ⟨rfl, rfl⟩ := Prod.mk.inj (Except.ok.inj h)
    exact ⟨.unfilled positive rfl rfl, rfl, rfl, rfl, rfl⟩
  | filled fill =>
    rw [said] at h
    obtain ⟨⟨broker, e⟩, made, left⟩ := except_map_eq_ok.mp h
    obtain ⟨rfl, rfl⟩ := Prod.mk.inj left
    obtain ⟨traded, profile, symbol, action⟩ := recordFill_traded today positive made
    have figures := recordFill_figures today made
    exact ⟨traded, profile, symbol, action, figures.filled, figures.quantity_eq, figures.price_eq,
      figures.positive, figures.commission_eq, figures.stampDuty_eq⟩

variable {step : Simulated ⊕ OrderKey} {s s' : Applying}

theorem bookStep_cases (rows : ∀ x ∈ simulated, SimulatedRow profile day x)
    (member : ∀ x, step = .inl x → x ∈ simulated) (start : s.AlongOf day profile curve)
    (h : bookStep records late day simulated s step = .ok s') :
    (∃ x, step = .inl x ∧ x.key ∈ s.settled ∧ s' = s) ∨
    (∃ x e broker, step = .inl x ∧ x.key ∉ s.settled ∧ asSimulated records late x.1 = true ∧
      Traded day s.broker broker e ∧ broker.profile = s.broker.profile ∧
      e.symbol = x.1.symbol ∧ e.action = x.1.action ∧
      (e.dividendTax = x.2.dividendTax → e.figures = x.2.figures) ∧
      e.isFilled = x.2.isFilled ∧ e.quantity = x.2.quantity ∧
      s' = { s with broker, booked := s.booked ++ [(x.key, { execution := e })] }) ∨
    (∃ x own broker row, step = .inl x ∧ x.key ∉ s.settled ∧
      resolve records (orderSession x.1) x.key true (orderSession x.1 ∈ late) = some own ∧
      own.outcome ≠ .simulated ∧ Traded day s.broker broker row.execution ∧
      broker.profile = s.broker.profile ∧ row.execution.symbol = x.key.symbol ∧
      row.execution.action = x.key.action ∧
      StandsFor profile day x.key own.outcome row.execution ∧
      s' = ⟨broker, s.booked ++ [(x.key, row)], x.key :: s.settled⟩) ∨
    (∃ key, step = .inr key ∧ (∀ record, records.fills.get? (day, key) = some record →
      ∀ fill, record.outcome ≠ .filled fill) ∧ s' = s) ∨
    ∃ key record fill broker row, step = .inr key ∧ records.fills.get? (day, key) = some record ∧
      record.outcome = .filled fill ∧ Traded day s.broker broker row.execution ∧
      broker.profile = s.broker.profile ∧ row.execution.symbol = key.symbol ∧
      row.execution.action = key.action ∧
      StandsFor profile day key record.outcome row.execution ∧
      s' = { s with broker, booked := s.booked ++ [(key, row)] } := by
  obtain ⟨along, rfl⟩ := start
  cases step with
  | inl x =>
    have row := rows x (member x rfl)
    rcases applyOrder_cases h with ⟨done, rfl⟩ | ⟨own, open', resolved, cases⟩
    · exact .inl ⟨x, rfl, done, rfl⟩
    rcases cases with ⟨said, filled, p, broker, e, priced, made, rfl⟩ | ⟨said, unfilled, rfl⟩ |
      ⟨said, broker, row', made, rfl⟩
    · have stands : asSimulated records late x.1 = true := by
        change (resolve _ _ x.key _ _).any _ = true
        rw [resolved]
        exact decide_eq_true said
      obtain ⟨traded, profile', symbol, action⟩ := recordFill_traded along.today along.positive made
      have figures := recordFill_figures along.today made
      refine .inr (.inl ⟨x, e, broker, rfl, open', stands, traded, profile', symbol, action, ?_,
        figures.filled.trans filled.symm, figures.quantity_eq.trans row.quantity_eq.symm, rfl⟩)
      intro tax
      simp only [Execution.figures, TradeFigures.mk.injEq]
      refine ⟨figures.filled.trans filled.symm, figures.quantity_eq.trans row.quantity_eq.symm,
        figures.price_eq.trans priced.symm, figures.commission_eq, ?_, tax⟩
      exact figures.stampDuty_eq.trans (row.stampDuty_eq p filled priced).symm
    · have stands : asSimulated records late x.1 = true := by
        change (resolve _ _ x.key _ _).any _ = true
        rw [resolved]
        exact decide_eq_true said
      exact .inr (.inl ⟨x, x.2, s.broker, rfl, open', stands,
        .unfilled along.positive unfilled (row.untaxed unfilled), rfl, row.symbol_eq,
        row.action_eq, fun _ => rfl, rfl, rfl, rfl⟩)
    · have key_eq : orderKey (firstOrder simulated x) = x.key := by
        unfold firstOrder
        split
        · rfl
        · rename_i first _ found
          have here : first ∈ ofKey simulated x.key := by rw [found]; exact List.mem_cons_self
          exact of_decide_eq_true (List.mem_filter.mp here).2
      obtain ⟨traded, profile', symbol, action, stands⟩ :=
        recordedRow_cases along.today along.positive said made
      rw [key_eq] at stands
      refine .inr (.inr (.inl ⟨x, own, broker, row', rfl, open', resolved, said, traded, profile',
        symbol.trans (congrArg OrderKey.symbol key_eq),
        action.trans (congrArg OrderKey.action key_eq), stands, rfl⟩))
  | inr key =>
    simp only [bookStep, applyOffSheet] at h
    split at h
    · rename_i absent
      exact .inr (.inr (.inr (.inl ⟨key, rfl, by simp [absent], (Except.ok.inj h).symm⟩)))
    rename_i record found
    split at h
    · rename_i fill said
      split_ifs at h with clock
      obtain ⟨⟨broker, row⟩, made, rfl⟩ := except_map_eq_ok.mp h
      obtain ⟨traded, profile', symbol, action, stands⟩ :=
        recordedRow_cases along.today along.positive (by simp [said]) made
      have key_eq : orderKey (offSheetOrder day key fill clock) = key := by
        simp [orderKey, offSheetOrder]
      rw [key_eq] at stands
      exact .inr (.inr (.inr (.inr ⟨key, record, fill, broker, { row with offSheet := true }, rfl,
        found, said, traded, profile', symbol, action, stands, rfl⟩)))
    · rename_i other
      refine .inr (.inr (.inr (.inl ⟨key, rfl, ?_, (Except.ok.inj h).symm⟩)))
      intro record' here fill said
      obtain rfl := Option.some.inj (found.symm.trans here)
      exact other fill said

theorem Applying.executions_append (s : Applying) (broker : DailyBroker) (key : OrderKey)
    (row : ExecutionRow) (settled : List OrderKey) :
    (⟨broker, s.booked ++ [(key, row)], settled⟩ : Applying).executions =
      s.executions ++ [row.execution] := by
  simp [Applying.executions]

theorem Applying.AlongOf.append {s : Applying} (start : s.AlongOf day profile curve)
    {broker : DailyBroker} {row : ExecutionRow} (traded : Traded day s.broker broker row.execution)
    (same : broker.profile = s.broker.profile) (key : OrderKey) (settled : List OrderKey) :
    (⟨broker, s.booked ++ [(key, row)], settled⟩ : Applying).AlongOf day profile curve := by
  refine ⟨?_, same.trans start.profile_eq⟩
  rw [Applying.executions_append]
  exact (start.along.step traded).1

theorem bookStep_alongOf (rows : ∀ x ∈ simulated, SimulatedRow profile day x)
    (member : ∀ x, step = .inl x → x ∈ simulated) (start : s.AlongOf day profile curve)
    (h : bookStep records late day simulated s step = .ok s') : s'.AlongOf day profile curve := by
  rcases bookStep_cases rows member start h with ⟨_, -, -, rfl⟩ |
    ⟨x, e, broker, -, -, -, traded, same, -, -, -, -, -, rfl⟩ |
    ⟨x, own, broker, row, -, -, -, -, traded, same, -, -, -, rfl⟩ | ⟨_, -, -, rfl⟩ |
    ⟨key, record, fill, broker, row, -, -, -, traded, same, -, -, -, rfl⟩
  · exact start
  · exact start.append traded same _ _
  · exact start.append traded same _ _
  · exact start
  · exact start.append traded same _ _

/-- A filled trade off the sheet that sells the name. -/
def tradesSale (records : Records) (day : Nat) (symbol : Symbol) (key : OrderKey) : Prop :=
  key.action = .sell ∧ key.symbol = symbol ∧ recordsFill records day key = true

/-- While the sales of a name go ahead as simulated, the account has sold what
the simulator has; and what is settled as one key did not stand as simulated. -/
structure SoldAlike (records : Records) (late : List Nat) (day : Nat)
    (done : List (Simulated ⊕ OrderKey)) (s : Applying) : Prop where
  settled : ∀ key ∈ s.settled, ∃ x ∈ ordersOf done, x.key = key ∧ asSimulated records late x.1 = false
  sold : ∀ symbol, (∀ x ∈ ordersOf done, isSale symbol x.1 = true →
      asSimulated records late x.1 = true) →
    (∀ key ∈ tradesOf done, ¬ tradesSale records day symbol key) →
    soldIn symbol s.executions = soldIn symbol ((ordersOf done).map Prod.snd)

theorem sells_eq_false {symbol : Symbol} {e : Execution} (key : OrderKey)
    (symbolEq : e.symbol = key.symbol) (actionEq : e.action = key.action)
    (other : ¬ (key.action = .sell ∧ key.symbol = symbol)) : e.sells symbol = false := by
  simp only [Execution.sells, symbolEq, actionEq]
  by_cases sale : key.action = .sell
  · have different : key.symbol ≠ symbol := fun equal => other ⟨sale, equal⟩
    simp [different]
  · simp [sale]

theorem isSale_iff {symbol : Symbol} {order : StrategyOrder} :
    isSale symbol order = true ↔ order.action = .sell ∧ order.symbol = symbol := by
  simp [isSale]

theorem bookStep_soldAlike {done : List (Simulated ⊕ OrderKey)}
    (rows : ∀ x ∈ simulated, SimulatedRow profile day x)
    (member : ∀ x, step = .inl x → x ∈ simulated) (start : s.AlongOf day profile curve)
    (alike : SoldAlike records late day done s)
    (h : bookStep records late day simulated s step = .ok s') :
    SoldAlike records late day (done ++ [step]) s' := by
  rcases bookStep_cases rows member start h with ⟨x, rfl, settled, rfl⟩ |
    ⟨x, e, broker, rfl, -, stands, -, -, symbolEq, actionEq, -, filled, quantity, rfl⟩ |
    ⟨x, own, broker, row, rfl, -, resolved, other, -, -, symbolEq, actionEq, -, rfl⟩ |
    ⟨key, rfl, -, rfl⟩ |
    ⟨key, record, fill, broker, row, rfl, found, said, -, -, symbolEq, actionEq, -, rfl⟩
  · refine ⟨?_, ?_⟩
    · intro key inSettled
      obtain ⟨y, inDone, yKey, not⟩ := alike.settled key inSettled
      exact ⟨y, by simp [inDone], yKey, not⟩
    · intro symbol sales trades
      simp only [ordersOf_append, ordersOf_inl, ordersOf_nil, tradesOf_append, tradesOf_inl,
        tradesOf_nil, List.append_nil, List.mem_append, List.mem_singleton] at sales trades
      have before := alike.sold symbol (fun y inDone => sales y (.inl inDone)) trades
      -- The key was settled by an order that does not stand as simulated.
      obtain ⟨y, inDone, yKey, not⟩ := alike.settled x.key settled
      have none : x.2.sells symbol = false := by
        refine sells_eq_false (orderKey x.1) (rows x (member x rfl)).symbol_eq (rows x (member x rfl)).action_eq
          fun sale => ?_
        have ySale : isSale symbol y.1 = true := by
          have same : orderKey y.1 = orderKey x.1 := yKey
          exact isSale_iff.mpr ⟨(congrArg OrderKey.action same).trans sale.1,
            (congrArg OrderKey.symbol same).trans sale.2⟩
        rw [sales y (.inl inDone) ySale] at not
        cases not
      rw [ordersOf_append, List.map_append, soldIn_append, before]
      simp [soldIn_singleton, none]
  · refine ⟨?_, ?_⟩
    · intro key inSettled
      obtain ⟨y, inDone, yKey, not⟩ := alike.settled key inSettled
      exact ⟨y, by simp [inDone], yKey, not⟩
    · intro symbol sales trades
      simp only [ordersOf_append, ordersOf_inl, ordersOf_nil, tradesOf_append, tradesOf_inl,
        tradesOf_nil, List.append_nil, List.mem_append, List.mem_singleton] at sales trades
      have before := alike.sold symbol (fun y inDone => sales y (.inl inDone)) trades
      have row := rows x (member x rfl)
      have sells : e.sells symbol = x.2.sells symbol := by
        simp only [Execution.sells, filled, symbolEq, actionEq, row.symbol_eq, row.action_eq]
      rw [Applying.executions_append, ordersOf_append, List.map_append, soldIn_append,
        soldIn_append, before]
      simp [soldIn_singleton, sells, quantity]
  · have not : asSimulated records late x.1 = false := by
      change (resolve _ _ x.key _ _).any _ = false
      rw [resolved]
      exact decide_eq_false other
    refine ⟨?_, ?_⟩
    · intro key inSettled
      rcases List.mem_cons.mp inSettled with rfl | inSettled
      · exact ⟨x, by simp, rfl, not⟩
      · obtain ⟨y, inDone, yKey, yNot⟩ := alike.settled key inSettled
        exact ⟨y, by simp [inDone], yKey, yNot⟩
    · intro symbol sales trades
      simp only [ordersOf_append, ordersOf_inl, ordersOf_nil, tradesOf_append, tradesOf_inl,
        tradesOf_nil, List.append_nil, List.mem_append, List.mem_singleton] at sales trades
      have before := alike.sold symbol (fun y inDone => sales y (.inl inDone)) trades
      have noSale : ¬ (x.key.action = .sell ∧ x.key.symbol = symbol) := fun sale => by
        rw [sales x (.inr rfl) (isSale_iff.mpr sale)] at not
        cases not
      have here := rows x (member x rfl)
      rw [Applying.executions_append, ordersOf_append, List.map_append, soldIn_append,
        soldIn_append, before]
      simp [soldIn_singleton, sells_eq_false _ symbolEq actionEq noSale,
        sells_eq_false x.key here.symbol_eq here.action_eq noSale]
  · refine ⟨?_, ?_⟩
    · simpa using alike.settled
    · intro symbol sales trades
      have before := alike.sold symbol (by simpa using sales)
        fun key inDone => trades key (by simp [inDone])
      simpa using before
  · refine ⟨?_, ?_⟩
    · simpa using alike.settled
    · intro symbol sales trades
      have before := alike.sold symbol (by simpa using sales)
        fun key inDone => trades key (by simp [inDone])
      have noSale : ¬ (key.action = .sell ∧ key.symbol = symbol) := fun sale =>
        trades key (by simp) ⟨sale.1, sale.2, by
          simp [recordsFill, found, said, RecordOutcome.isFilled]⟩
      rw [Applying.executions_append, soldIn_append, before]
      simp [soldIn_singleton, sells_eq_false _ symbolEq actionEq noSale]

end Steps

end AutoTrade
