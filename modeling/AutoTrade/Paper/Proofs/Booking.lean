import AutoTrade.Environment.Proofs.LotTax
import AutoTrade.Paper.Proofs.SimulatedSession

/-!
# What a session books

`_apply` goes through the due orders and the trades off the sheet clock by
clock. `bookingSteps` is that order as one list; the facts here are told of
the steps done so far: the tax every sale paid, on the morning's curve, and
what each key has come to.
-/

namespace AutoTrade

open DailyBroker

/-- A filled sale of the name. -/
def Execution.sells (symbol : Symbol) (e : Execution) : Bool :=
  e.isFilled && (e.action = .sell && e.symbol = symbol)

/-- The shares of the name the executions sold. -/
def soldIn (symbol : Symbol) (executions : List Execution) : Int :=
  ((executions.filter (Execution.sells symbol)).map Execution.quantity).sum

@[simp] theorem soldIn_nil (symbol : Symbol) : soldIn symbol [] = 0 := rfl

theorem soldIn_append (symbol : Symbol) (executions executions' : List Execution) :
    soldIn symbol (executions ++ executions') =
      soldIn symbol executions + soldIn symbol executions' := by
  simp [soldIn, List.filter_append]

theorem soldIn_singleton (symbol : Symbol) (e : Execution) :
    soldIn symbol [e] = if e.sells symbol then e.quantity else 0 := by
  unfold soldIn
  by_cases sold : e.sells symbol = true <;> simp [sold]

/-- The tax an execution pays that follows `executions`, by the morning's curve. -/
def taxAfter (curve : Symbol → Int → ℚ) (executions : List Execution) (e : Execution) : ℚ :=
  if e.sells e.symbol then
    curve e.symbol (soldIn e.symbol executions + e.quantity) -
      curve e.symbol (soldIn e.symbol executions)
  else 0

/-- An account whose curves are the morning's, each shifted by what the
executions since have sold of the name. -/
structure Along (day : Nat) (curve : Symbol → Int → ℚ) (executions : List Execution)
    (b : DailyBroker) : Prop where
  today : b.currentDay = some day
  positive : ∀ symbol, ∀ lot ∈ b.lotsOf symbol, 0 < lot.quantity
  curve_eq : ∀ symbol n, 0 ≤ n → b.taxCurve day symbol n =
    curve symbol (soldIn symbol executions + n) - curve symbol (soldIn symbol executions)

/-- What an execution does to the lots and the tax they owe. -/
structure Traded (day : Nat) (b b' : DailyBroker) (e : Execution) : Prop where
  today : b'.currentDay = b.currentDay
  positive : ∀ symbol, ∀ lot ∈ b'.lotsOf symbol, 0 < lot.quantity
  tax_eq : e.dividendTax = if e.sells e.symbol then b.taxCurve day e.symbol e.quantity else 0
  nonneg : e.sells e.symbol = true → 0 ≤ e.quantity
  curve_eq : ∀ symbol n, 0 ≤ n → b'.taxCurve day symbol n =
    if e.sells symbol then b.taxCurve day symbol (e.quantity + n) - b.taxCurve day symbol e.quantity
    else b.taxCurve day symbol n

variable {e : Execution}

theorem Execution.sells_symbol {symbol : Symbol} (h : e.sells symbol = true) :
    e.symbol = symbol := by
  simp only [sells, Bool.and_eq_true, decide_eq_true_eq] at h
  exact h.2.2

variable {b b' : DailyBroker} {day : Nat}

theorem Along.step {curve : Symbol → Int → ℚ} {executions : List Execution}
    (along : Along day curve executions b) (traded : Traded day b b' e) :
    Along day curve (executions ++ [e]) b' ∧ e.dividendTax = taxAfter curve executions e := by
  refine ⟨⟨traded.today.trans along.today, traded.positive, ?_⟩, ?_⟩
  · intro symbol n bound
    rw [traded.curve_eq symbol n bound, soldIn_append, soldIn_singleton]
    split_ifs with sold
    · obtain rfl := Execution.sells_symbol sold
      have shares := traded.nonneg sold
      rw [along.curve_eq _ _ (by omega), along.curve_eq _ _ shares, ← add_assoc]
      ring
    · rw [along.curve_eq symbol n bound, add_zero]
  · rw [traded.tax_eq, taxAfter]
    split_ifs with sold
    · exact along.curve_eq _ _ (traded.nonneg sold)
    · rfl

theorem fill_sells (order : StrategyOrder) (at' : Instant) (p fee stamp tax : ℚ) (pnl : Option ℚ)
    (symbol : Symbol) :
    (fill order at' p fee stamp tax pnl).sells symbol =
      (order.action = .sell && order.symbol = symbol) := rfl

theorem Traded.unfilled {b : DailyBroker}
    (positive : ∀ symbol, ∀ lot ∈ b.lotsOf symbol, 0 < lot.quantity) (none : e.isFilled = false)
    (untaxed : e.dividendTax = 0) : Traded day b b e := by
  have sells : ∀ symbol, e.sells symbol = false := fun symbol => by simp [Execution.sells, none]
  refine ⟨rfl, positive, by simp [sells, untaxed], by simp [sells], ?_⟩
  intro symbol n _
  simp [sells]

variable {order : StrategyOrder} {at' : Instant}

theorem Traded.buy {p cost fee stamp : ℚ}
    (positive : ∀ symbol, ∀ lot ∈ b.lotsOf symbol, 0 < lot.quantity) (buys : order.action = .buy)
    (h : b.buy order day p cost = some b') :
    Traded day b b' (fill order at' p fee stamp 0 none) := by
  have sells : ∀ symbol, (fill order at' p fee stamp 0 none).sells symbol = false :=
    fun symbol => by simp [fill_sells, buys]
  refine ⟨?_, ?_, ?_, by simp [sells], ?_⟩
  · obtain ⟨-, rfl⟩ := buy_eq_some h
    rfl
  · intro symbol lot member
    rw [buy_lotsOf h] at member
    rcases List.mem_append.mp member with old | new
    · exact positive symbol lot old
    · split_ifs at new
      · exact List.mem_singleton.mp new ▸ order.quantity_pos
      · cases new
  · rw [if_neg (by simp [sells])]
    rfl
  · intro symbol n _
    rw [buy_taxCurve h, if_neg (by simp [sells])]

theorem Traded.sell {p notional fee stamp tax realized : ℚ} {fee' stamp' : ℚ}
    (positive : ∀ symbol, ∀ lot ∈ b.lotsOf symbol, 0 < lot.quantity) (sale : order.action = .sell)
    (h : b.sell order day p notional fee stamp = .ok (b', tax, realized)) :
    Traded day b b' (fill order at' p fee' stamp' tax (some realized)) := by
  obtain ⟨owed, shifted, others, left⟩ := sell_taxCurve positive h
  have sells : ∀ symbol, (fill order at' p fee' stamp' tax (some realized)).sells symbol =
      decide (order.symbol = symbol) := fun symbol => by simp [fill_sells, sale]
  refine ⟨?_, left, ?_, fun _ => order.quantity_pos.le, ?_⟩
  · obtain ⟨position, lots, -, -, -, rfl⟩ := sell_eq_ok h
    rfl
  · rw [if_pos (by rw [sells]; exact decide_eq_true rfl)]
    exact owed
  · intro symbol n bound
    rw [sells]
    by_cases here : order.symbol = symbol
    · subst here
      rw [if_pos (by simp)]
      exact shifted n bound
    · rw [if_neg (by simpa using here)]
      exact others symbol (Ne.symm here) n

theorem taxCurve_withProfile {b : DailyBroker} {profile : BrokerProfile}
    (tax : profile.dividendTax = b.profile.dividendTax) (day : Nat) (symbol : Symbol) (n : Int) :
    (b.withProfile profile).taxCurve day symbol n = b.taxCurve day symbol n := by
  unfold taxCurve lotsOf
  simp only [withProfile, tax]

theorem Traded.withProfile {profile profile' : BrokerProfile}
    (tax : profile.dividendTax = b.profile.dividendTax)
    (tax' : profile'.dividendTax = b'.profile.dividendTax)
    (h : Traded day (b.withProfile profile) b' e) : Traded day b (b'.withProfile profile') e := by
  refine ⟨h.today, h.positive, ?_, h.nonneg, ?_⟩
  · rw [h.tax_eq, taxCurve_withProfile tax]
  · intro symbol n bound
    rw [taxCurve_withProfile tax', h.curve_eq symbol n bound, taxCurve_withProfile tax,
      taxCurve_withProfile tax, taxCurve_withProfile tax]

theorem execute_traded {bar : Option Bar} {rawPrice : Option ℚ} (today : b.currentDay = some day)
    (positive : ∀ symbol, ∀ lot ∈ b.lotsOf symbol, 0 < lot.quantity)
    (h : b.execute order bar at' rawPrice = .ok (b', e)) : Traded day b b' e := by
  rcases execute_cases h with ⟨reason, left⟩ | ⟨_, _, p, -, -, -, -, fills⟩
  · obtain ⟨rfl, rfl⟩ := Prod.mk.inj left
    exact .unfilled positive rfl rfl
  obtain ⟨day', fee, stamp, today', -, cases⟩ := fillAt_cases fills
  obtain rfl := Option.some.inj (today.symm.trans today')
  rcases cases with ⟨-, -, left⟩ | ⟨bought, buys, made, left⟩ | ⟨sold, tax, realized, sale, made, left⟩
  · obtain ⟨rfl, rfl⟩ := Prod.mk.inj left
    exact .unfilled positive rfl rfl
  · obtain ⟨rfl, rfl⟩ := Prod.mk.inj left
    exact .buy positive buys made
  · obtain ⟨rfl, rfl⟩ := Prod.mk.inj left
    exact .sell positive sale made

theorem recordFill_traded {p : ℚ} {commission : Option ℚ} (today : b.currentDay = some day)
    (positive : ∀ symbol, ∀ lot ∈ b.lotsOf symbol, 0 < lot.quantity)
    (h : recordFill b order p commission = .ok (b', e)) :
    Traded day b b' e ∧ b'.profile = b.profile ∧ e.symbol = order.symbol ∧
      e.action = order.action := by
  obtain ⟨profile, tax, profile', -, cases⟩ := recordFill_cases today h
  rcases cases with ⟨bought, buys, made, rfl, rfl⟩ | ⟨sold, owed, realized, sale, made, rfl, rfl⟩
  · refine ⟨.withProfile tax ?_ (.buy positive buys made), profile', rfl, rfl⟩
    obtain ⟨-, rfl⟩ := buy_eq_some made
    exact tax.symm
  · refine ⟨.withProfile tax ?_ (.sell positive sale made), profile', rfl, rfl⟩
    obtain ⟨position, lots, -, -, -, rfl⟩ := sell_eq_ok made
    exact tax.symm

/-- What the row of a simulated order says of the order. -/
structure SimulatedRow (profile : BrokerProfile) (day : Nat) (x : Simulated) : Prop where
  symbol_eq : x.2.symbol = x.1.symbol
  action_eq : x.2.action = x.1.action
  quantity_eq : x.2.quantity = x.1.quantity
  stampDuty_eq : ∀ p, x.2.isFilled = true → x.2.price = some p → x.2.stampDuty =
    if x.1.action = .sell then profile.stampDutyOnSale (p * x.1.quantity) day else 0
  untaxed : x.2.isFilled = false → x.2.dividendTax = 0

theorem execute_simulatedRow {bar : Option Bar} {rawPrice : Option ℚ}
    (today : b.currentDay = some day) (h : b.execute order bar at' rawPrice = .ok (b', e)) :
    SimulatedRow b.profile day (order, e) := by
  have frame := execute_frame h
  refine ⟨frame.symbol_eq, frame.action_eq, frame.quantity_eq, ?_, ?_⟩
  · intro p filled priced
    rcases execute_cases h with ⟨reason, left⟩ | ⟨_, _, p', -, -, -, -, fills⟩
    · simp only [(Prod.mk.inj left).2, rejection] at priced
      cases priced
    obtain ⟨day', fee, stamp, today', paid, cases⟩ := fillAt_cases fills
    obtain rfl := Option.some.inj (today.symm.trans today')
    obtain ⟨-, rfl⟩ := Prod.mk.inj (BrokerProfile.fees_eq_ok paid).2
    rcases cases with ⟨-, -, left⟩ | ⟨_, -, -, left⟩ | ⟨_, _, _, -, -, left⟩ <;>
      obtain ⟨rfl, rfl⟩ := Prod.mk.inj left
    · cases priced
    · obtain rfl := Option.some.inj priced
      rfl
    · obtain rfl := Option.some.inj priced
      rfl
  · intro unfilled
    rcases execute_cases h with ⟨reason, left⟩ | ⟨_, _, p', -, -, -, -, fills⟩
    · rw [(Prod.mk.inj left).2]
      rfl
    obtain ⟨_, _, _, -, -, cases⟩ := fillAt_cases fills
    rcases cases with ⟨-, -, left⟩ | ⟨_, -, -, left⟩ | ⟨_, _, _, -, -, left⟩ <;>
      obtain ⟨rfl, rfl⟩ := Prod.mk.inj left
    · rfl
    · cases unfilled
    · cases unfilled

theorem Executed.rows {data : PaperData} {P : DailyBroker → Prop} {b b' : DailyBroker}
    {xs : List Simulated} {day : Nat} {curve : Symbol → Int → ℚ} {executions : List Execution}
    (runs : Executed data P b xs b') (along : Along day curve executions b) :
    (∀ x ∈ xs, SimulatedRow b.profile day x) ∧
      ∀ before x after, xs = before ++ x :: after →
        x.2.dividendTax = taxAfter curve (executions ++ before.map Prod.snd) x.2 := by
  induction runs generalizing executions with
  | nil => exact ⟨by simp, fun before x after whole => by simp at whole⟩
  | @cons b b₁ b₂ order e rest holds first later ih =>
    have frame := execute_frame first
    obtain ⟨along', taxed⟩ := along.step (execute_traded along.today along.positive first)
    obtain ⟨rows, taxes⟩ := ih along'
    refine ⟨?_, ?_⟩
    · intro x member
      rcases List.mem_cons.mp member with rfl | member
      · exact execute_simulatedRow along.today first
      · exact frame.profile_eq ▸ rows x member
    · intro before x after whole
      cases before with
      | nil =>
        obtain ⟨rfl, rfl⟩ := List.cons.inj whole
        simpa using taxed
      | cons y before =>
        obtain ⟨rfl, whole'⟩ := List.cons.inj whole
        simpa using taxes before x after whole'

/-- What a session books, in order: clock by clock the due orders as they were
placed, then the trades off the sheet. -/
def bookingSteps (simulated : List Simulated) (offSheet : List OrderKey) (clocks : List Nat) :
    List (Simulated ⊕ OrderKey) :=
  clocks.flatMap fun c =>
    (simulated.filter fun x => x.key.clock = c).map .inl ++
      (offSheet.filter fun key => key.clock = c).map .inr

/-- One step of the booking. -/
def bookStep (records : Records) (late : List Nat) (day : Nat) (simulated : List Simulated)
    (s : Applying) : Simulated ⊕ OrderKey → Except FillsError Applying
  | .inl x => applyOrder records late simulated s x
  | .inr key => applyOffSheet records day s key

variable {simulated : List Simulated} {clocks : List Nat}

theorem applyClocks_steps {records : Records} {late : List Nat} {s s' : Applying}
    (h : clocks.foldlM (applyClock records late day simulated) s = .ok s') :
    (bookingSteps simulated (offSheetKeys records day simulated) clocks).foldlM
      (bookStep records late day simulated) s = .ok s' := by
  induction clocks generalizing s with
  | nil => exact h
  | cons c clocks ih =>
    obtain ⟨t, first, rest⟩ := foldlM_cons_eq_ok.mp h
    unfold applyClock at first
    obtain ⟨ordered, orders, first⟩ := bind_eq_ok.mp first
    obtain ⟨traded, trades, first⟩ := bind_eq_ok.mp first
    obtain ⟨rfl, -⟩ := checkCash_eq_ok first
    rw [bookingSteps, List.flatMap_cons]
    refine foldlM_append_eq_ok.mpr ⟨t, foldlM_append_eq_ok.mpr ⟨ordered, ?_, ?_⟩, ih rest⟩
    · rw [List.foldlM_map]
      exact orders
    · rw [List.foldlM_map]
      exact trades

/-- The due orders among the steps. -/
def ordersOf (steps : List (Simulated ⊕ OrderKey)) : List Simulated :=
  steps.filterMap Sum.getLeft?

/-- The trades off the sheet among the steps. -/
def tradesOf (steps : List (Simulated ⊕ OrderKey)) : List OrderKey :=
  steps.filterMap Sum.getRight?

@[simp] theorem ordersOf_append (steps steps' : List (Simulated ⊕ OrderKey)) :
    ordersOf (steps ++ steps') = ordersOf steps ++ ordersOf steps' := List.filterMap_append

@[simp] theorem tradesOf_append (steps steps' : List (Simulated ⊕ OrderKey)) :
    tradesOf (steps ++ steps') = tradesOf steps ++ tradesOf steps' := List.filterMap_append

@[simp] theorem ordersOf_inl (x : Simulated) (steps : List (Simulated ⊕ OrderKey)) :
    ordersOf (.inl x :: steps) = x :: ordersOf steps := rfl

@[simp] theorem ordersOf_inr (key : OrderKey) (steps : List (Simulated ⊕ OrderKey)) :
    ordersOf (.inr key :: steps) = ordersOf steps := rfl

@[simp] theorem tradesOf_inl (x : Simulated) (steps : List (Simulated ⊕ OrderKey)) :
    tradesOf (.inl x :: steps) = tradesOf steps := rfl

@[simp] theorem tradesOf_inr (key : OrderKey) (steps : List (Simulated ⊕ OrderKey)) :
    tradesOf (.inr key :: steps) = key :: tradesOf steps := rfl

@[simp] theorem ordersOf_nil : ordersOf [] = [] := rfl

@[simp] theorem tradesOf_nil : tradesOf [] = [] := rfl

theorem ordersOf_bookingSteps (simulated : List Simulated) (offSheet : List OrderKey)
    (clocks : List Nat) : ordersOf (bookingSteps simulated offSheet clocks) =
      clocks.flatMap fun c => simulated.filter fun x => x.key.clock = c := by
  unfold ordersOf bookingSteps
  rw [List.filterMap_flatMap]
  refine List.flatMap_congr fun c _ => ?_
  rw [List.filterMap_append, List.filterMap_map, List.filterMap_map]
  simp [Function.comp_def]

theorem tradesOf_bookingSteps (simulated : List Simulated) (offSheet : List OrderKey)
    (clocks : List Nat) : tradesOf (bookingSteps simulated offSheet clocks) =
      clocks.flatMap fun c => offSheet.filter fun key => key.clock = c := by
  unfold tradesOf bookingSteps
  rw [List.filterMap_flatMap]
  refine List.flatMap_congr fun c _ => ?_
  rw [List.filterMap_append, List.filterMap_map, List.filterMap_map]
  simp [Function.comp_def]

theorem ordersOf_filter (offSheet : List OrderKey) {kind : Simulated → Bool}
    (ascending : clocks.Pairwise (· < ·)) (covered : ∀ x ∈ simulated, x.key.clock ∈ clocks)
    (placed : (simulated.filter kind).Pairwise fun x y => x.key.clock ≤ y.key.clock) :
    (ordersOf (bookingSteps simulated offSheet clocks)).filter kind = simulated.filter kind := by
  rw [ordersOf_bookingSteps, List.filter_flatMap]
  have sorted := flatMap_filter_of_sorted (simulated.filter kind) placed ascending
    fun x member => covered x (List.mem_filter.mp member).1
  rw [← sorted]
  refine List.flatMap_congr fun c _ => ?_
  rw [List.filter_filter, List.filter_filter]
  exact List.filter_congr fun x _ => Bool.and_comm _ _

variable {offSheet : List OrderKey}

theorem tradesOf_nodup (ascending : clocks.Pairwise (· < ·)) (distinct : offSheet.Nodup) :
    (tradesOf (bookingSteps simulated offSheet clocks)).Nodup := by
  rw [tradesOf_bookingSteps, List.nodup_flatMap]
  refine ⟨fun c _ => distinct.filter _, ascending.imp fun before => ?_⟩
  intro key here there
  simp only [List.mem_filter, decide_eq_true_eq] at here there
  omega

theorem mem_tradesOf (covered : ∀ key ∈ offSheet, key.clock ∈ clocks) {key : OrderKey} :
    key ∈ tradesOf (bookingSteps simulated offSheet clocks) ↔ key ∈ offSheet := by
  rw [tradesOf_bookingSteps]
  simp only [List.mem_flatMap, List.mem_filter, decide_eq_true_eq]
  exact ⟨fun ⟨_, _, member, _⟩ => member, fun member => ⟨_, covered key member, member, rfl⟩⟩

theorem trade_before_order (ascending : clocks.Pairwise (· < ·))
    {before after : List (Simulated ⊕ OrderKey)} {x : Simulated} {key : OrderKey}
    (whole : bookingSteps simulated offSheet clocks = before ++ .inl x :: after)
    (traded : key ∈ tradesOf before) : key.clock < x.key.clock := by
  have ordered : (bookingSteps simulated offSheet clocks).Pairwise fun step step' =>
      ∀ k y, step = .inr k → step' = .inl y → k.clock < y.key.clock := by
    rw [bookingSteps, List.pairwise_flatMap]
    refine ⟨fun c _ => ?_, ascending.imp fun earlier => ?_⟩
    · rw [List.pairwise_append]
      refine ⟨?_, ?_, ?_⟩
      · rw [List.pairwise_map]
        exact List.pairwise_of_forall fun _ _ k y here _ => by cases here
      · rw [List.pairwise_map]
        exact List.pairwise_of_forall fun _ _ k y _ there => by cases there
      · intro step member step' _ k y here _
        obtain ⟨_, -, rfl⟩ := List.mem_map.mp member
        cases here
    · intro step member step' member' k y here there
      subst here there
      simp only [List.mem_append, List.mem_map, List.mem_filter, decide_eq_true_eq, reduceCtorEq,
        and_false, exists_false, false_or, or_false, Sum.inr.injEq, exists_eq_right,
        Sum.inl.injEq] at member member'
      omega
  rw [whole, List.pairwise_append] at ordered
  obtain ⟨step, member, here⟩ := List.mem_filterMap.mp traded
  exact ordered.2.2 step member (.inl x) List.mem_cons_self key x
    (Sum.getRight?_eq_some_iff.mp here) rfl

end AutoTrade
