import AutoTrade.Paper.Proofs.FillsClosure

/-!
# Recording what the simulator filled

`record_fill` at a simulated execution's own price and commission leaves the
account the simulator left, and the same execution. The price band it puts
around the price is the only thing in the way, and only below a billionth.
-/

namespace AutoTrade

open DailyBroker

/-- Whether a price is outside the tolerance of the band `record_fill` checks
it against. -/
def beyondBand (action : OrderAction) (p : ℚ) : Bool :=
  match action with
  | .buy => decide (1 / 1000000000 < p)
  | .sell => decide (2 / 1000000000 < p)

/-- The profile of a fill whose commission is stated. -/
def statedProfile (base : BrokerProfile) (c : ℚ) (nonneg : 0 ≤ c) : BrokerProfile :=
  { base with
    slippageBps := 0, maxTotalHoldings := none, maxSingleNameWeight := none,
    commissionBps := 0, minCommissionCny := c, transferFeeBps := 0,
    slippageBps_nonneg := nothing_nonneg, commissionBps_nonneg := nothing_nonneg,
    minCommissionCny_nonneg := nonneg, transferFeeBps_nonneg := nothing_nonneg }

variable {base : BrokerProfile}

theorem recordProfile_some {c : ℚ} (nonneg : 0 ≤ c) :
    recordProfile base (some c) = .ok (statedProfile base c nonneg) := by
  simp [recordProfile, statedProfile, nonneg]

theorem tradeFee_nonneg (profile : BrokerProfile) {notional : ℚ} (positive : 0 < notional) :
    0 ≤ profile.tradeFee notional := by
  have minimum := profile.minCommissionCny_nonneg
  have transfer := mul_nonneg positive.le profile.transferFeeBps_nonneg
  have bps : (0 : ℚ) ≤ bpsUnit := by norm_num [bpsUnit]
  exact add_nonneg (le_trans minimum (le_max_right _ _)) (div_nonneg transfer bps)

theorem statedProfile_fees {c : ℚ} (nonneg : 0 ≤ c) {notional : ℚ} (positive : 0 < notional)
    (action : OrderAction) (day : Nat) :
    (statedProfile base c nonneg).fees notional action day =
      .ok (c, if action = .sell then base.stampDutyOnSale notional day else 0) := by
  simp [BrokerProfile.fees, not_le.mpr positive, BrokerProfile.tradeFee, BrokerProfile.commission,
    BrokerProfile.transferFee, BrokerProfile.stampDutyOnSale, statedProfile, nonneg]

variable {p : ℚ}

theorem fillPriceOf_recordBar {c : ℚ} (nonneg : 0 ≤ c) (order : StrategyOrder) (positive : 0 < p)
    (band : beyondBand order.action p = true) :
    fillPriceOf (statedProfile base c nonneg) (bareOrder order) (recordBar p) p = .ok p := by
  have high : price (some (p * 2)) = some (p * 2) := by simp [price, positive]
  have low : price (some (p / 2)) = some (p / 2) := by simp [price, positive]
  cases action : order.action with
  | buy =>
    have limit : ¬ p * 2 - 1 / 1000000000 ≤ p := by
      simp only [beyondBand, action, decide_eq_true_eq] at band
      linarith
    simp only [fillPriceOf, bareOrder, recordBar, action, if_true, high, reduceCtorEq, ne_eq,
      not_false_eq_true, BrokerProfile.fillPrice, statedProfile, zero_div, add_zero, mul_one,
      reachesLimit, decide_eq_true_eq, if_neg limit]
  | sell =>
    have limit : ¬ p ≤ p / 2 + 1 / 1000000000 := by
      simp only [beyondBand, action, decide_eq_true_eq] at band
      linarith
    simp only [fillPriceOf, bareOrder, recordBar, action, if_false, low, reduceCtorEq, ne_eq,
      not_false_eq_true, if_true, BrokerProfile.fillPrice, statedProfile, zero_div, sub_zero,
      mul_one, reachesLimit, decide_eq_true_eq, if_neg limit]

variable {order : StrategyOrder}

theorem rejectReason_recorded {b : DailyBroker} {bar : Option Bar} {rawPrice : Option ℚ}
    (profile : BrokerProfile) (h : b.rejectReason order bar rawPrice = none)
    (boards : profile.permittedBoards = b.profile.permittedBoards)
    (holdings : profile.maxTotalHoldings = none) (weight : profile.maxSingleNameWeight = none)
    (positive : 0 < p) :
    (b.withProfile profile).rejectReason (bareOrder order) (some (recordBar p)) (some p) =
      none := by
  obtain ⟨permitted, -, raw, -, -, -, accepted⟩ := rejectReason_eq_none.mp h
  have same : profile.permits order.symbol = b.profile.permits order.symbol := by
    simp [BrokerProfile.permits, boards]
  refine rejectReason_eq_none.mpr ⟨?_, recordBar p, p, rfl, rfl, by simp [price, positive], ?_⟩
  · simpa [bareOrder, withProfile, same] using permitted
  unfold orderReject at accepted ⊢
  cases action : order.action with
  | buy =>
    simp only [action] at accepted
    have lot : validBuyLot order.quantity order.symbol = true := by
      cases lot : validBuyLot order.quantity order.symbol with
      | true => rfl
      | false => simp [lot] at accepted
    simp [bareOrder, withProfile, action, lot, holdings, singleNameCapReject, weight]
  | sell =>
    simp only [action] at accepted
    simpa only [bareOrder, withProfile, action] using accepted

section WithProfile

variable {b b' : DailyBroker} {profile : BrokerProfile}
  (tax : profile.dividendTax = b.profile.dividendTax)

include tax

theorem buy_withProfile (order : StrategyOrder) (day : Nat) (p cost : ℚ) :
    (b.withProfile profile).buy (bareOrder order) day p cost =
      (b.buy order day p cost).map fun bought => bought.withProfile profile := by
  unfold buy
  simp only [bareOrder, withProfile, tax]
  split_ifs <;> rfl

theorem sell_withProfile (order : StrategyOrder) (day : Nat) (p notional commission stampDuty : ℚ) :
    (b.withProfile profile).sell (bareOrder order) day p notional commission stampDuty =
      (b.sell order day p notional commission stampDuty).map fun sold =>
        (sold.1.withProfile profile, sold.2) := by
  unfold sell saleLots takeLots
  simp only [bareOrder, withProfile, tax]
  cases b.positions.get? order.symbol with
  | none => rfl
  | some position =>
    dsimp only
    split <;> rfl

theorem fillAt_withProfile {order : StrategyOrder} {matchedAt : Instant} {p : ℚ} {e : Execution}
    {day : Nat} (today : b.currentDay = some day)
    (fees : profile.fees (p * order.quantity) order.action day =
      b.profile.fees (p * order.quantity) order.action day)
    (h : b.fillAt order matchedAt p = .ok (b', e)) :
    (b.withProfile profile).fillAt (bareOrder order) matchedAt p =
      .ok (b'.withProfile profile, { e with session := none, limitPrice := none }) := by
  obtain ⟨day', commission, stampDuty, today', paid, cases⟩ := fillAt_cases h
  obtain rfl := Option.some.inj (today.symm.trans today')
  have opened : (b.withProfile profile).currentDay = some day := today
  have charged : (b.withProfile profile).profile.fees (p * ((bareOrder order).quantity : ℚ))
      (bareOrder order).action day = .ok (commission, stampDuty) := fees.trans paid
  unfold fillAt
  rw [opened]
  dsimp only
  rw [charged]
  dsimp only
  rcases cases with ⟨action, made, left⟩ | ⟨bought, action, made, left⟩ |
    ⟨sold, tax', realized, action, made, left⟩ <;>
    simp only [Prod.mk.injEq] at left <;> obtain ⟨rfl, rfl⟩ := left <;>
    rw [show (bareOrder order).action = _ from action,
      show (bareOrder order).quantity = order.quantity from rfl]
  · rw [buy_withProfile tax, made]
    rfl
  · rw [buy_withProfile tax, made]
    rfl
  · rw [sell_withProfile tax, made]
    rfl

end WithProfile

variable {e : Execution}

theorem fillAt_filled {b b' : DailyBroker} {matchedAt : Instant}
    (h : b.fillAt order matchedAt p = .ok (b', e)) (filled : e.isFilled = true) :
    0 < p * order.quantity ∧ e.price = some p ∧
      e.commission = b.profile.tradeFee (p * order.quantity) := by
  obtain ⟨day, commission, stampDuty, -, fees, cases⟩ := fillAt_cases h
  obtain ⟨notional, paid⟩ := BrokerProfile.fees_eq_ok fees
  simp only [Prod.mk.injEq] at paid
  obtain ⟨rfl, rfl⟩ := paid
  refine ⟨notional, ?_⟩
  rcases cases with ⟨-, -, left⟩ | ⟨_, -, -, left⟩ | ⟨_, _, _, -, -, left⟩ <;>
    simp only [Prod.mk.injEq] at left <;> obtain ⟨-, rfl⟩ := left
  · simp [rejection, Execution.isFilled] at filled
  · exact ⟨rfl, rfl⟩
  · exact ⟨rfl, rfl⟩

theorem recordFill_reproduces {b b' : DailyBroker} {bar : Option Bar} {rawPrice : Option ℚ}
    (h : b.execute order bar order.executeAt rawPrice = .ok (b', e)) (filled : e.isFilled = true)
    (priced : e.price = some p) (band : beyondBand order.action p = true) :
    recordFill b order p (some e.commission) = .ok (b', e) := by
  rcases execute_cases h with ⟨reason, left⟩ | ⟨dayBar, base, p', accepted, -, -, -, fills⟩
  · simp only [Prod.mk.injEq] at left
    simp [left.2, rejection, Execution.isFilled] at filled
  obtain ⟨day, -, -, today, -, -⟩ := fillAt_cases fills
  obtain ⟨notional, priced', fee⟩ := fillAt_filled fills filled
  obtain rfl := Option.some.inj (priced.symm.trans priced')
  have quantity : (0 : ℚ) < order.quantity := by exact_mod_cast order.quantity_pos
  have positive : 0 < p := (mul_pos_iff_of_pos_right quantity).mp notional
  have nonneg : 0 ≤ e.commission := fee ▸ tradeFee_nonneg b.profile notional
  have frame := fillAt_frame fills
  -- The checks pass again, the band lets the price through, and the fill is the simulator's.
  have sellable := rejectReason_recorded (statedProfile b.profile e.commission nonneg)
    accepted rfl rfl rfl positive
  have raw : price (some p) = some p := by simp [price, positive]
  have reached : fillPriceOf (b.withProfile (statedProfile b.profile e.commission nonneg)).profile
      (bareOrder order) (recordBar p) p = .ok p := fillPriceOf_recordBar nonneg order positive band
  have fees : (statedProfile b.profile e.commission nonneg).fees (p * order.quantity) order.action
      day = b.profile.fees (p * order.quantity) order.action day := by
    rw [statedProfile_fees nonneg notional, fee]
    simp [BrokerProfile.fees, not_le.mpr notional]
  have refill := fillAt_withProfile
    (show (statedProfile b.profile e.commission nonneg).dividendTax = b.profile.dividendTax from rfl)
    today fees fills
  have executed : (b.withProfile (statedProfile b.profile e.commission nonneg)).execute
      (bareOrder order) (some (recordBar p)) order.executeAt (some p) =
      .ok (b'.withProfile (statedProfile b.profile e.commission nonneg),
        { e with session := none, limitPrice := none }) := by
    unfold execute
    rw [sellable, raw]
    dsimp only
    rw [reached]
    exact refill
  unfold recordFill
  rw [recordProfile_some nonneg]
  dsimp only
  rw [executed]
  dsimp only
  rw [if_pos (by simpa [Execution.isFilled] using filled)]
  have profile : b'.profile = b.profile := frame.profile_eq
  have session : e.session = order.session := frame.session_eq
  have limit : e.limitPrice = order.limitPrice := frame.limitPrice_eq
  rw [← profile, ← session, ← limit]
  rfl

variable {commission : Option ℚ}

theorem recordProfile_spec {base profile : BrokerProfile}
    (h : recordProfile base commission = .ok profile) :
    profile.slippageBps = 0 ∧ profile.dividendTax = base.dividendTax ∧
      ∀ notional, 0 < notional → ∀ action day, profile.fees notional action day =
        .ok (commission.getD (base.tradeFee notional),
          if action = .sell then base.stampDutyOnSale notional day else 0) := by
  cases commission with
  | none =>
    obtain rfl := Except.ok.inj h
    refine ⟨rfl, rfl, fun notional positive action day => ?_⟩
    simp [BrokerProfile.fees, not_le.mpr positive, BrokerProfile.tradeFee,
      BrokerProfile.commission, BrokerProfile.transferFee, BrokerProfile.stampDutyOnSale]
  | some c =>
    by_cases nonneg : 0 ≤ c
    · rw [recordProfile_some nonneg] at h
      obtain rfl := Except.ok.inj h
      exact ⟨rfl, rfl, fun notional positive action day => statedProfile_fees nonneg positive _ _⟩
    · simp [recordProfile, nonneg] at h

theorem fillPriceOf_bare {profile : BrokerProfile} {bar : Bar} {base p : ℚ}
    (flat : profile.slippageBps = 0) (h : fillPriceOf profile (bareOrder order) bar base = .ok p) :
    p = base := by
  have unmoved : profile.fillPrice base order.action = base := by
    cases action : order.action <;> simp [BrokerProfile.fillPrice, flat]
  unfold fillPriceOf at h
  simp only [bareOrder, reduceCtorEq, ne_eq, not_false_eq_true, if_true, unmoved] at h
  split at h
  · cases h
  · split_ifs at h
    exact (Except.ok.inj h).symm

/-- What a recorded fill's row says, whatever the account it is booked onto. -/
structure RecordedFigures (b : DailyBroker) (order : StrategyOrder) (p : ℚ)
    (commission : Option ℚ) (day : Nat) (e : Execution) : Prop where
  positive : 0 < p * order.quantity
  filled : e.isFilled = true
  price_eq : e.price = some p
  quantity_eq : e.quantity = order.quantity
  commission_eq : e.commission = commission.getD (b.profile.tradeFee (p * order.quantity))
  stampDuty_eq : e.stampDuty =
    if order.action = .sell then b.profile.stampDutyOnSale (p * order.quantity) day else 0
  untaxed : b.profile.dividendTax = false ∨ order.action = .buy → e.dividendTax = 0

theorem recordFill_cases {b b' : DailyBroker} {day : Nat} (today : b.currentDay = some day)
    (h : recordFill b order p commission = .ok (b', e)) :
    ∃ profile : BrokerProfile, profile.dividendTax = b.profile.dividendTax ∧
      b'.profile = b.profile ∧ 0 < p * order.quantity ∧
      (let fee := commission.getD (b.profile.tradeFee (p * order.quantity))
       let stamp := if order.action = .sell then
          b.profile.stampDutyOnSale (p * order.quantity) day else 0
       (∃ bought, order.action = .buy ∧
          (b.withProfile profile).buy order day p (p * order.quantity + fee) = some bought ∧
          b' = bought.withProfile b.profile ∧ e = fill order order.executeAt p fee stamp 0 none) ∨
        ∃ sold tax realized, order.action = .sell ∧
          (b.withProfile profile).sell order day p (p * order.quantity) fee stamp =
            .ok (sold, tax, realized) ∧
          b' = sold.withProfile b.profile ∧
          e = fill order order.executeAt p fee stamp tax (some realized)) := by
  obtain ⟨profile, booked, execution, known, executed, filled, rfl, rfl⟩ := recordFill_eq_ok h
  obtain ⟨flat, tax, fees⟩ := recordProfile_spec known
  rcases execute_cases executed with ⟨reason, left⟩ | ⟨bar, base, p', -, -, raw, reached, fills⟩
  · simp only [Prod.mk.injEq] at left
    simp [left.2, rejection, Execution.isFilled] at filled
  obtain rfl : p = base := Option.some.inj (price_eq_some raw).1
  obtain rfl := fillPriceOf_bare flat reached
  obtain ⟨day', fee, stamp, today', paid, cases⟩ := fillAt_cases fills
  obtain rfl := Option.some.inj (today.symm.trans today')
  have positive := (BrokerProfile.fees_eq_ok paid).1
  have charged := (fees _ positive order.action day).symm.trans paid
  simp only [Except.ok.injEq, Prod.mk.injEq] at charged
  obtain ⟨rfl, rfl⟩ := charged
  refine ⟨profile, tax, rfl, positive, ?_⟩
  rcases cases with ⟨-, -, left⟩ | ⟨bought, action, made, left⟩ |
    ⟨sold, owed, realized, action, made, left⟩ <;>
    simp only [Prod.mk.injEq] at left <;> obtain ⟨rfl, rfl⟩ := left
  · simp [rejection, Execution.isFilled] at filled
  · exact .inl ⟨_, action, made, rfl, rfl⟩
  · exact .inr ⟨_, _, _, action, made, rfl, rfl⟩

theorem recordFill_figures {b b' : DailyBroker} {day : Nat} (today : b.currentDay = some day)
    (h : recordFill b order p commission = .ok (b', e)) :
    RecordedFigures b order p commission day e := by
  obtain ⟨profile, tax, -, positive, cases⟩ := recordFill_cases today h
  rcases cases with ⟨bought, action, -, -, rfl⟩ | ⟨sold, owed, realized, action, made, -, rfl⟩
  · exact ⟨positive, rfl, rfl, rfl, rfl, rfl, fun _ => rfl⟩
  · refine ⟨positive, rfl, rfl, rfl, rfl, rfl, fun untaxed => ?_⟩
    rcases untaxed with untaxed | buy
    · obtain ⟨position, lots, -, released, -, -⟩ := sell_eq_ok made
      unfold saleLots at released
      have off : (b.withProfile profile).profile.dividendTax = false := tax.trans untaxed
      simp only [off] at released
      simp only [Bool.false_eq_true, if_false, Except.ok.injEq, Prod.mk.injEq] at released
      exact released.1.symm
    · rw [action] at buy
      cases buy

end AutoTrade
