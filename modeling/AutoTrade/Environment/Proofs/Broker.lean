import AutoTrade.Environment.Broker
import Mathlib.Tactic.FieldSimp
import Mathlib.Tactic.Linarith
import Mathlib.Tactic.Ring

/-!
# What the broker's steps do

One inversion lemma for each step of the broker: every account a successful
step can leave, with the facts its guards establish. The invariants of an
account are read off these.
-/

namespace AutoTrade

theorem fromRecord_made {record : OrderRecord} {inferenceAt : Instant} {order : StrategyOrder}
    (made : StrategyOrder.fromRecord record inferenceAt = .ok order) :
    strip record.symbol ≠ "" ∧ inferenceAt ≤ record.executeAt ∧
      ∃ limitPrice positive, order = ⟨strip record.symbol, record.action, record.quantity,
        record.executeAt, record.metadata, record.session, limitPrice, positive⟩ := by
  simp only [StrategyOrder.fromRecord] at made
  obtain ⟨filled, made⟩ := guard_eq_ok.mp made
  split at made
  · obtain ⟨notBefore, later⟩ := guard_eq_ok.mp made
    refine ⟨filled, not_lt.mp notBefore, ?_⟩
    cases session : record.session with
    | none =>
      rw [session] at later
      cases limit : record.limitPrice with
      | none =>
        rw [limit] at later
        exact ⟨none, _, (pure_eq_ok.mp later).symm⟩
      | some price =>
        rw [limit] at later
        cases later
    | some named =>
      rw [session] at later
      have timed := (guard_eq_ok.mp later).2
      cases limit : record.limitPrice with
      | none =>
        rw [limit] at timed
        exact ⟨none, _, (pure_eq_ok.mp timed).symm⟩
      | some price =>
        rw [limit] at timed
        obtain ⟨limitPrice, -, built⟩ := bind_eq_ok.mp (guard_eq_ok.mp timed).2
        exact ⟨limitPrice, _, (pure_eq_ok.mp built).symm⟩
  · cases made

theorem price_eq_some {value : Option ℚ} {p : ℚ} (h : price value = some p) :
    value = some p ∧ 0 < p := by
  simpa [price] using h

theorem BrokerProfile.fees_eq_ok {profile : BrokerProfile} {notional : ℚ} {action : OrderAction}
    {day : Nat} {paid : ℚ × ℚ} (h : profile.fees notional action day = .ok paid) :
    0 < notional ∧ paid = (profile.tradeFee notional,
      if action = .sell then profile.stampDutyOnSale notional day else 0) := by
  unfold fees at h
  split at h
  · cases h
  · rename_i positive
    exact ⟨by linarith, (Except.ok.inj h).symm⟩

theorem DailyBroker.sortedDict_equiv {α : Type} (d : Dict Symbol α) :
    (DailyBroker.sortedDict d).Equiv d := List.perm_insertionSort _ _

theorem DailyBroker.sortedDict_get? {α : Type} (d : Dict Symbol α) (symbol : Symbol) :
    (DailyBroker.sortedDict d).get? symbol = d.get? symbol := (sortedDict_equiv d).get? symbol

theorem exDateEffect_spec {symbol : Symbol} {day : Nat} {position : Position}
    {preClose cash income withheld : ℚ} {ratio : Option ℚ} {oldRule : Bool} {ex : ExDate}
    (h : exDateEffect symbol day position preClose cash income ratio withheld oldRule =
      .ok (some ex)) :
    (ex.ratio.isSome ∧ 0 < ex.quantityAfter) ∨
      (ex.ratio = none ∧ ex.quantityAfter = position.quantity ∧
        ex.credit = position.quantity * cash) := by
  cases ratio with
  | none =>
    unfold exDateEffect at h
    dsimp only at h
    by_cases flat : income = 0
    · simp [flat] at h
    · rw [if_neg flat] at h
      obtain rfl := Option.some.inj (Except.ok.inj h)
      exact .inr ⟨rfl, rfl, rfl⟩
  | some r =>
    unfold exDateEffect at h
    dsimp only at h
    split_ifs at h with whole
    obtain rfl := Option.some.inj (Except.ok.inj h)
    exact .inl ⟨rfl, not_le.mp whole⟩

theorem exDateOf_spec {tax : Bool} {symbol : Symbol} {day : Nat} {position : Position} {bar : Bar}
    {distribution : Distribution} {ex : ExDate}
    (h : exDateOf tax symbol day position bar distribution = .ok (some ex)) :
    (ex.ratio.isSome ∧ 0 < ex.quantityAfter) ∨
      (ex.ratio = none ∧ ex.quantityAfter = position.quantity ∧
        ex.credit = position.quantity * distribution.cashPerShare) := by
  unfold exDateOf at h
  dsimp only at h
  split at h
  · cases h
  · rename_i preClose _
    by_cases noBonus : tax && distribution.bonusPerShare.isNone
    · simp [noBonus] at h
    by_cases cash : distribution.cashPerShare < 0
    · simp [noBonus, cash] at h
    by_cases bonus : distribution.bonusPerShare.getD 0 < 0
    · simp [noBonus, cash, bonus] at h
    rw [if_neg noBonus, if_neg cash, if_neg bonus] at h
    split at h
    · cases h
    · split at h
      · cases h
      · exact exDateEffect_spec h

namespace DailyBroker

variable {b b' : DailyBroker} {day : Nat} {position : Position}

theorem settleExDate_cases {symbol : Symbol} {bar : Bar} {distribution : Distribution}
    (h : b.settleExDate symbol day position bar distribution = .ok b') :
    (exDateOf b.profile.dividendTax symbol day position bar distribution = .ok none ∧
      b' = { b with positions := b.positions.set symbol position }) ∨
    ∃ ex lots, exDateOf b.profile.dividendTax symbol day position bar distribution = .ok (some ex) ∧
      ex.withheld - 1 / 1000000000 ≤ b.cash + ex.credit ∧ b.exDateLots symbol ex = .ok lots ∧
      b' = b.withExDate symbol day position distribution.cashPerShare ex lots := by
  unfold settleExDate at h
  split at h
  · cases h
  · rename_i effect
    exact .inl ⟨effect, (Except.ok.inj h).symm⟩
  · rename_i ex effect
    split_ifs at h with short
    split at h
    · cases h
    · rename_i lots kept
      exact .inr ⟨ex, lots, effect, not_lt.mp short, kept, (Except.ok.inj h).symm⟩

/-- The position `open_day` releases from the T+1 lock. -/
def released (position : Position) : Position :=
  { position with availableQuantity := position.quantity }

variable {events : Symbol → Distribution} {bars : Symbol → Option Bar}

theorem openPosition_cases {symbol : Symbol}
    (h : openPosition day bars events b (symbol, position) = .ok b') :
    b' = { b with positions := b.positions.set symbol (released position) } ∨
    ∃ bar ex lots, bars symbol = some bar ∧
      exDateOf b.profile.dividendTax symbol day (released position) bar (events symbol) =
        .ok (some ex) ∧
      b.exDateLots symbol ex = .ok lots ∧
      b' = b.withExDate symbol day (released position) (events symbol).cashPerShare ex lots := by
  unfold openPosition at h
  dsimp only at h
  split at h
  · exact .inl (Except.ok.inj h).symm
  · rename_i bar found
    rcases settleExDate_cases h with ⟨-, rfl⟩ | ⟨ex, lots, effect, -, kept, rfl⟩
    · exact .inl rfl
    · exact .inr ⟨bar, ex, lots, found, effect, kept, rfl⟩

theorem openPosition_get?_of_ne {symbol other : Symbol}
    (h : openPosition day bars events b (symbol, position) = .ok b') (different : symbol ≠ other) :
    b'.positions.get? other = b.positions.get? other := by
  rcases openPosition_cases h with rfl | ⟨bar, ex, lots, -, -, -, rfl⟩ <;>
    exact Dict.get?_set_of_ne _ _ different

theorem openDay_invariant {P : DailyBroker → Prop}
    (entered : ∀ b, P b → P { b with currentDay := some day })
    (step : ∀ b b' symbol position, P b → b.positions.get? symbol = some position →
      openPosition day bars events b (symbol, position) = .ok b' → P b')
    (h : b.openDay day bars events = .ok b') (start : P b) : P b' := by
  unfold openDay at h
  split_ifs at h
  · exact Except.ok.inj h ▸ start
  have loop : ∀ (l : List (Symbol × Position)) (b : DailyBroker), (l.map Prod.fst).Nodup →
      (∀ entry ∈ l, b.positions.get? entry.1 = some entry.2) → P b →
      l.foldlM (openPosition day bars events) b = .ok b' → P b' := by
    intro l
    induction l with
    | nil =>
      intro b _ _ holds run
      exact (foldlM_nil _ b b').mp run ▸ holds
    | cons entry rest ih =>
      obtain ⟨symbol, position⟩ := entry
      intro b nodup here holds run
      obtain ⟨t, first, later⟩ := foldlM_cons_eq_ok.mp run
      have distinct := List.nodup_cons.mp nodup
      refine ih t distinct.2 (fun other member => ?_)
        (step b t symbol position holds (here _ List.mem_cons_self) first) later
      have different : symbol ≠ other.1 := fun same =>
        distinct.1 (same ▸ List.mem_map.mpr ⟨other, member, rfl⟩)
      rw [openPosition_get?_of_ne first different]
      exact here other (List.mem_cons_of_mem _ member)
  exact loop _ { b with currentDay := some day } b.positions.nodup
    (fun entry member => Dict.mem_entries_iff.mp member) (entered b start) h

theorem openDay_spec (h : b.openDay day bars events = .ok b') :
    b'.profile = b.profile ∧ b'.currentDay = some day ∧
      ∃ actions, b'.corporateActions = b.corporateActions ++ actions ∧
        ∀ action ∈ actions, action.tradeDate = day := by
  by_cases today : b.currentDay = some day
  · rw [openDay, if_pos today] at h
    obtain rfl := Except.ok.inj h
    exact ⟨rfl, today, [], by simp, by simp⟩
  have opened := h
  rw [openDay, if_neg today] at h
  refine foldlM_invariant (P := fun b' => b'.profile = b.profile ∧ b'.currentDay = some day ∧
      ∃ actions, b'.corporateActions = b.corporateActions ++ actions ∧
        ∀ action ∈ actions, action.tradeDate = day) ?_ h ⟨rfl, rfl, [], by simp, by simp⟩
  intro entry _ s s' step holds
  obtain ⟨profile, day_eq, actions, recorded, dated⟩ := holds
  rcases openPosition_cases step with
    rfl | ⟨bar, ex, lots, -, -, -, rfl⟩
  · exact ⟨profile, day_eq, actions, recorded, dated⟩
  · refine ⟨profile, day_eq, actions ++ [ex.action entry.1 day (released entry.2)
      (events entry.1).cashPerShare], ?_, ?_⟩
    · simp only [withExDate, recorded, List.append_assoc]
    · intro action member
      rcases List.mem_append.mp member with old | new
      · exact dated action old
      · rw [List.mem_singleton.mp new]
        rfl

variable {order : StrategyOrder}

theorem buy_eq_some {p requiredCash : ℚ} (h : b.buy order day p requiredCash = some b') :
    requiredCash ≤ b.cash + 1 / 1000000000 ∧
    b' = { b with
      cash := b.cash - requiredCash
      lots := if b.profile.dividendTax then
          b.lots.set order.symbol
            ((b.lots.get? order.symbol).getD [] ++ [⟨order.quantity, day, 0, 0⟩])
        else b.lots
      positions := b.positions.set order.symbol
        (boughtPosition (b.positions.get? order.symbol) order.quantity requiredCash p) } := by
  unfold buy at h
  split_ifs at h with short <;> exact ⟨not_lt.mp short, by simp_all⟩

theorem sell_eq_ok {p notional commission stampDuty tax realized : ℚ}
    (h : b.sell order day p notional commission stampDuty = .ok (b', tax, realized)) :
    ∃ position lots, b.positions.get? order.symbol = some position ∧
      b.saleLots order.symbol day order.quantity = .ok (tax, lots) ∧
      realized = notional - commission - stampDuty - tax - position.averageCost * order.quantity ∧
      b' = { b with cash := b.cash + (notional - commission - stampDuty - tax), lots }.withPosition
        order.symbol (soldPosition position order.quantity p) := by
  unfold sell at h
  split at h
  · cases h
  · rename_i position found
    split at h
    · cases h
    · rename_i tax' lots sold
      simp only [Except.ok.injEq, Prod.mk.injEq] at h
      obtain ⟨rfl, rfl, rfl⟩ := h
      exact ⟨position, lots, found, sold, rfl, rfl⟩

variable {matchedAt : Instant} {e : Execution}

theorem fillAt_cases {p : ℚ} (h : b.fillAt order matchedAt p = .ok (b', e)) :
    ∃ day commission stampDuty, b.currentDay = some day ∧
      b.profile.fees (p * order.quantity) order.action day = .ok (commission, stampDuty) ∧
      ((order.action = .buy ∧ b.buy order day p (p * order.quantity + commission) = none ∧
          (b', e) = (b, rejection order matchedAt .insufficientCash)) ∨
        (∃ bought, order.action = .buy ∧
          b.buy order day p (p * order.quantity + commission) = some bought ∧
          (b', e) = (bought, fill order matchedAt p commission stampDuty 0 none)) ∨
        ∃ sold tax realized, order.action = .sell ∧
          b.sell order day p (p * order.quantity) commission stampDuty =
            .ok (sold, tax, realized) ∧
          (b', e) = (sold,
            fill order matchedAt p commission stampDuty tax (some realized))) := by
  unfold fillAt at h
  split at h
  · cases h
  rename_i day today
  split at h
  · cases h
  rename_i commission stampDuty fees
  refine ⟨day, commission, stampDuty, today, fees, ?_⟩
  cases action : order.action with
  | buy =>
    rw [action] at h
    dsimp only at h
    split at h
    · rename_i refused
      exact .inl ⟨rfl, refused, (Except.ok.inj h).symm⟩
    · rename_i bought made
      exact .inr (.inl ⟨bought, rfl, made, (Except.ok.inj h).symm⟩)
  | sell =>
    rw [action] at h
    dsimp only at h
    split at h
    · cases h
    · rename_i sold tax realized made
      exact .inr (.inr ⟨sold, tax, realized, rfl, made, (Except.ok.inj h).symm⟩)

variable {rawPrice : Option ℚ} {bar : Option Bar}

theorem execute_cases (h : b.execute order bar matchedAt rawPrice = .ok (b', e)) :
    (∃ reason, (b', e) = (b, rejection order matchedAt reason)) ∨
    ∃ dayBar base p, b.rejectReason order bar rawPrice = none ∧ bar = some dayBar ∧
      price rawPrice = some base ∧ fillPriceOf b.profile order dayBar base = .ok p ∧
      b.fillAt order matchedAt p = .ok (b', e) := by
  unfold execute at h
  split at h
  · rename_i reason _
    exact .inl ⟨reason, (Except.ok.inj h).symm⟩
  · rename_i dayBar base priced accepted
    split at h
    · rename_i reason _
      exact .inl ⟨reason, (Except.ok.inj h).symm⟩
    · rename_i p reached
      exact .inr ⟨dayBar, base, p, accepted, rfl, priced, reached, h⟩
  · exact .inl ⟨_, (Except.ok.inj h).symm⟩

/-- What no execution of an order touches, and what its row says of the order. -/
structure ExecutionFrame (b b' : DailyBroker) (order : StrategyOrder) (matchedAt : Instant)
    (e : Execution) : Prop where
  profile_eq : b'.profile = b.profile
  initialEquity_eq : b'.initialEquity = b.initialEquity
  corporateActions_eq : b'.corporateActions = b.corporateActions
  currentDay_eq : b'.currentDay = b.currentDay
  symbol_eq : e.symbol = order.symbol
  action_eq : e.action = order.action
  quantity_eq : e.quantity = order.quantity
  executeAt_eq : e.executeAt = order.executeAt
  matchedAt_eq : e.matchedAt = matchedAt
  metadata_eq : e.metadata = order.metadata
  session_eq : e.session = order.session
  limitPrice_eq : e.limitPrice = order.limitPrice

theorem fillAt_frame {p : ℚ} (h : b.fillAt order matchedAt p = .ok (b', e)) :
    ExecutionFrame b b' order matchedAt e := by
  obtain ⟨day, commission, stampDuty, -, -, cases⟩ := fillAt_cases h
  rcases cases with ⟨-, -, left⟩ | ⟨bought, -, made, left⟩ | ⟨sold, tax, realized, -, made, left⟩ <;>
    simp only [Prod.mk.injEq] at left <;> obtain ⟨rfl, rfl⟩ := left
  · constructor <;> rfl
  · obtain ⟨-, rfl⟩ := buy_eq_some made
    constructor <;> rfl
  · obtain ⟨position, lots, -, -, -, rfl⟩ := sell_eq_ok made
    constructor <;> rfl

theorem execute_frame (h : b.execute order bar matchedAt rawPrice = .ok (b', e)) :
    ExecutionFrame b b' order matchedAt e := by
  rcases execute_cases h with ⟨reason, left⟩ | ⟨_, _, _, -, -, -, -, filled⟩
  · simp only [Prod.mk.injEq] at left
    obtain ⟨rfl, rfl⟩ := left
    constructor <;> rfl
  · exact fillAt_frame filled

theorem rejectReason_eq_none {b : DailyBroker} :
    b.rejectReason order bar rawPrice = none ↔
      ¬ (order.action = .buy ∧ ¬ b.profile.permits order.symbol) ∧
      ∃ dayBar raw, bar = some dayBar ∧ dayBar.isSuspended = false ∧ price rawPrice = some raw ∧
        b.orderReject order raw = none := by
  unfold rejectReason
  by_cases refused : order.action = .buy ∧ ¬ b.profile.permits order.symbol
  · simp [refused]
  rw [if_neg refused]
  cases bar with
  | none => simp
  | some dayBar =>
    cases suspended : dayBar.isSuspended <;> cases price rawPrice <;>
      simp [suspended] <;> exact fun _ bought => by simpa [bought] using refused

theorem rejectReason_sell {b : DailyBroker} (h : b.rejectReason order bar rawPrice = none)
    (sale : order.action = .sell) (held : b.positions.get? order.symbol = some position) :
    order.quantity ≤ position.availableQuantity := by
  obtain ⟨-, dayBar, raw, -, -, -, accepted⟩ := rejectReason_eq_none.mp h
  unfold orderReject at accepted
  rw [sale, held] at accepted
  dsimp only at accepted
  split_ifs at accepted with short
  exact not_lt.mp short

end DailyBroker

end AutoTrade
