import AutoTrade.Environment.Proofs.ExDates
import AutoTrade.Environment.Proofs.TPlusOne

/-!
# A holding left untouched

What an opening makes of the shares of a holding, and of the price it is carried at, is read off
its bar: the price moves to the day's `pre_close` exactly when the exchange reset it. Trades in
other names leave it alone.
-/

namespace AutoTrade

open DailyBroker

/-- The price a holding is carried at once a day with a `pre_close` has opened. -/
def resetPrice (last preClose : ℚ) : ℚ := if priceReset last preClose then preClose else last

theorem priceReset_of_some {last preClose cash r : ℚ}
    (applies : exDateShareMultiplier last preClose cash = some (some r)) :
    priceReset last preClose = true := by
  unfold exDateShareMultiplier at applies
  by_cases reset : priceReset last preClose = true
  · exact reset
  · simp [reset] at applies

theorem cash_pos_of_none {last preClose cash : ℚ}
    (applies : exDateShareMultiplier last preClose cash = some none)
    (reset : priceReset last preClose = true) : 0 < cash := by
  unfold exDateShareMultiplier at applies
  rw [if_pos reset] at applies
  dsimp only at applies
  split_ifs at applies with invalid paid
  · exact paid.1
  · cases applies

/-- The shares, what is offered of them and the price, before and after an opening. -/
inductive OpenedOn (cash : ℚ) (before after : Position) : Option Bar → Prop where
  | noBar (quantity : after.quantity = before.quantity)
      (available : after.availableQuantity = before.quantity)
      (last : after.lastPrice = before.lastPrice) : OpenedOn cash before after none
  | bar {bar : Bar} {preClose : ℚ} {ratio : Option ℚ} (quoted : price bar.preClose = some preClose)
      (applies : exDateShareMultiplier before.lastPrice preClose cash = some ratio)
      (quantity : after.quantity = ratio.elim before.quantity (exDateShares before.quantity))
      (available : after.availableQuantity = min before.quantity after.quantity)
      (last : after.lastPrice = resetPrice before.lastPrice preClose) :
      OpenedOn cash before after (some bar)

variable {distribution : Distribution}

theorem openedOn_of_none {tax : Bool} {symbol : Symbol} {day : Nat} {position : Position}
    {bar : Bar} (read : exDateOf tax symbol day (released position) bar distribution = .ok none) :
    OpenedOn distribution.cashPerShare position (released position) (some bar) := by
  obtain ⟨preClose, ratio, withheld, old, reading, effect⟩ := exDateOf_eq_ok read
  cases ratio with
  | some r =>
    obtain ⟨settled, made, -⟩ := exDateEffect_some effect
    cases made
  | none =>
    refine .bar reading.quoted reading.applies rfl (by simp [released]) ?_
    rcases exDateEffect_none effect with ⟨flat, -⟩ | ⟨settled, made, -⟩
    · have applies : exDateShareMultiplier position.lastPrice preClose distribution.cashPerShare =
          some none := reading.applies
      have level : ¬ priceReset position.lastPrice preClose = true := by
        intro reset
        have paid := cash_pos_of_none applies reset
        simp only [deliveredIncome, Option.isSome_none, Bool.false_eq_true, if_false,
          add_zero] at flat
        exact paid.ne' flat
      exact (if_neg level).symm
    · cases made

theorem openedOn_of_some {tax : Bool} {symbol : Symbol} {day : Nat} {position : Position}
    {bar : Bar} {ex : ExDate}
    (read : exDateOf tax symbol day (released position) bar distribution = .ok (some ex)) :
    OpenedOn distribution.cashPerShare position (ex.position (released position)) (some bar) := by
  obtain ⟨preClose, ratio, withheld, old, reading, effect⟩ := exDateOf_eq_ok read
  unfold exDateEffect at effect
  cases ratio with
  | none =>
    dsimp only at effect
    by_cases flat : deliveredIncome distribution none = 0
    · rw [if_pos flat] at effect
      cases effect
    · rw [if_neg flat] at effect
      obtain rfl := Option.some.inj (Except.ok.inj effect)
      exact .bar reading.quoted reading.applies rfl (by simp [ExDate.position, released]) rfl
  | some r =>
    have reset := priceReset_of_some reading.applies
    dsimp only at effect
    split_ifs at effect
    obtain rfl := Option.some.inj (Except.ok.inj effect)
    refine .bar reading.quoted reading.applies rfl (by simp [ExDate.position, released]) ?_
    exact (if_pos reset).symm

namespace DailyBroker

variable {b b' : DailyBroker} {symbol : Symbol} {events : Symbol → Distribution}
  {bars : Symbol → Option Bar}

theorem openPosition_openedOn {day : Nat} {position : Position}
    (h : openPosition day bars events b (symbol, position) = .ok b') :
    ∃ after, b'.positions.get? symbol = some after ∧
      OpenedOn (events symbol).cashPerShare position after (bars symbol) := by
  unfold openPosition at h
  dsimp only at h
  cases bar : bars symbol with
  | none =>
    simp only [bar] at h
    obtain rfl := Except.ok.inj h
    exact ⟨released position, Dict.get?_set_self _ _ _, .noBar rfl rfl rfl⟩
  | some dayBar =>
    simp only [bar] at h
    rcases settleExDate_cases h with ⟨read, rfl⟩ | ⟨ex, lots, read, -, -, rfl⟩
    · exact ⟨released position, Dict.get?_set_self _ _ _, openedOn_of_none read⟩
    · exact ⟨ex.position (released position), Dict.get?_set_self _ _ _, openedOn_of_some read⟩

theorem openDay_openedOn {day : Nat} {position : Position} (new : b.currentDay ≠ some day)
    (h : b.openDay day bars events = .ok b') (held : b.positions.get? symbol = some position) :
    ∃ after, b'.positions.get? symbol = some after ∧
      OpenedOn (events symbol).cashPerShare position after (bars symbol) :=
  (openDay_each (fun _ _ _ => openPosition_openedOn) new h).2 position held

theorem execute_get?_of_ne {order : StrategyOrder} {bar : Option Bar} {matchedAt : Instant}
    {rawPrice : Option ℚ} {e : Execution}
    (h : b.execute order bar matchedAt rawPrice = .ok (b', e)) (other : order.symbol ≠ symbol) :
    b'.positions.get? symbol = b.positions.get? symbol := by
  rcases execute_cases h with ⟨reason, left⟩ | ⟨_, _, _, -, -, -, -, filled⟩
  · rw [(Prod.mk.inj left).1]
  · obtain ⟨day, commission, stampDuty, -, -, cases⟩ := fillAt_cases filled
    rcases cases with ⟨-, -, left⟩ | ⟨bought, -, made, left⟩ | ⟨sold, tax, realized, -, made, left⟩
    · rw [(Prod.mk.inj left).1]
    · rw [(Prod.mk.inj left).1]
      obtain ⟨-, rfl⟩ := buy_eq_some made
      exact Dict.get?_set_of_ne _ _ other
    · rw [(Prod.mk.inj left).1]
      obtain ⟨position, lots, -, -, -, rfl⟩ := sell_eq_ok made
      unfold withPosition
      cases soldPosition position order.quantity _ with
      | none => exact (Dict.get?_erase _ _ _).trans (if_neg other)
      | some left => exact Dict.get?_set_of_ne _ _ other

end DailyBroker

end AutoTrade
