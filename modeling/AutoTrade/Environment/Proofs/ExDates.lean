import AutoTrade.Environment.Proofs.LotShares

/-!
# What an ex-date is worth

An ex-date exchanges the shares of a holding at the exchange's own reset and pays the rest
in cash, so that the account is worth what it was worth at the last close. The rest is a
dividend and a part of one share.
-/

namespace AutoTrade

theorem roundHalfEven_near (x : ℚ) :
    x - 1 / 2 ≤ roundHalfEven x ∧ (roundHalfEven x : ℚ) ≤ x + 1 / 2 := by
  have floor := Int.floor_le x
  have next := Int.lt_floor_add_one x
  unfold roundHalfEven
  dsimp only
  split_ifs
  · constructor <;> linarith
  · constructor <;> push_cast <;> linarith
  · constructor <;> linarith
  · constructor <;> push_cast <;> linarith

/-- Half of the sixth decimal that shares are rounded at. -/
def shareTolerance : ℚ := 1 / 2000000

theorem round6_near (x : ℚ) : x - shareTolerance ≤ round6 x ∧ round6 x ≤ x + shareTolerance := by
  obtain ⟨low, high⟩ := roundHalfEven_near (x * 1000000)
  unfold round6 shareTolerance
  constructor <;> linarith

theorem round6_lt_floor (x : ℚ) : round6 x ≤ ⌊round6 x⌋ + (1 - 1 / 1000000) := by
  have less : round6 x < ⌊round6 x⌋ + 1 := Int.lt_floor_add_one _
  have parts : (roundHalfEven (x * 1000000) : ℚ) < ((⌊round6 x⌋ + 1) * 1000000 : Int) := by
    push_cast
    unfold round6 at less ⊢
    linarith
  have whole : roundHalfEven (x * 1000000) + 1 ≤ (⌊round6 x⌋ + 1) * 1000000 := by
    exact_mod_cast parts
  have cast : (roundHalfEven (x * 1000000) : ℚ) + 1 ≤ ((⌊round6 x⌋ : ℚ) + 1) * 1000000 := by
    exact_mod_cast whole
  have sixth : round6 x = roundHalfEven (x * 1000000) / 1000000 := rfl
  linarith

theorem exDateShares_bounds (quantity : Int) (ratio : ℚ) :
    -shareTolerance ≤ quantity * ratio - exDateShares quantity ratio ∧
      quantity * ratio - exDateShares quantity ratio < 1 := by
  obtain ⟨low, high⟩ := round6_near (quantity * ratio)
  have floor := Int.floor_le (round6 (quantity * ratio))
  have whole := round6_lt_floor (quantity * ratio)
  unfold exDateShares
  unfold shareTolerance at *
  constructor <;> linarith

theorem exDateShareMultiplier_eq_some {lastClose preClose cash r : ℚ}
    (applies : exDateShareMultiplier lastClose preClose cash = some (some r)) :
    r = (lastClose - cash) / preClose ∧ 0 < r := by
  unfold exDateShareMultiplier at applies
  dsimp only at applies
  split_ifs at applies with reset ratio alone
  · cases applies
  · obtain rfl := Option.some.inj (Option.some.inj applies)
    exact ⟨rfl, not_le.mp ratio⟩
  · cases applies

/-- The income per share an ex-date delivers. -/
def deliveredIncome (distribution : Distribution) (ratio : Option ℚ) : ℚ :=
  distribution.cashPerShare +
    if ratio.isSome then distribution.bonusPerShare.getD 0 * bonusSharePar else 0

/-- What an ex-date reads before it changes anything. -/
structure ExDateRead (tax : Bool) (position : Position) (bar : Bar) (distribution : Distribution)
    (preClose : ℚ) (ratio : Option ℚ) (withheld : ℚ) (old : Bool) : Prop where
  quoted : price bar.preClose = some preClose
  nonneg : 0 ≤ distribution.cashPerShare
  applies : exDateShareMultiplier position.lastPrice preClose distribution.cashPerShare = some ratio
  taxed : exDateTax tax position.quantity (deliveredIncome distribution ratio)
    distribution.recordDate = .ok (withheld, old)

variable {position : Position} {ex : Option ExDate} {symbol : Symbol}

theorem exDateOf_eq_ok {tax : Bool} {day : Nat} {bar : Bar} {distribution : Distribution}
    (read : exDateOf tax symbol day position bar distribution = .ok ex) :
    ∃ preClose ratio withheld old,
      ExDateRead tax position bar distribution preClose ratio withheld old ∧
      exDateEffect symbol day position preClose distribution.cashPerShare
        (deliveredIncome distribution ratio) ratio withheld old = .ok ex := by
  unfold exDateOf at read
  dsimp only at read
  cases named : price bar.preClose with
  | none => simp [named] at read
  | some preClose =>
    simp only [named] at read
    split_ifs at read with noBonus negative bonus
    cases applies : exDateShareMultiplier position.lastPrice preClose distribution.cashPerShare with
    | none => simp [applies] at read
    | some ratio =>
      simp only [applies] at read
      cases taxed : exDateTax tax position.quantity (deliveredIncome distribution ratio)
          distribution.recordDate with
      | error e =>
        unfold deliveredIncome at taxed
        simp [taxed] at read
      | ok due =>
        have effect := taxed
        unfold deliveredIncome at effect
        simp only [effect] at read
        exact ⟨preClose, ratio, due.1, due.2, ⟨named, not_lt.mp negative, applies, taxed⟩, read⟩

theorem exDateTax_zero {tax : Bool} {quantity : Int} {recordDate : Option Nat} :
    exDateTax tax quantity 0 recordDate = .ok (0, false) := by
  simp [exDateTax]

theorem exDateEffect_some {day : Nat} {preClose cash income withheld r : ℚ} {oldRule : Bool}
    (effect : exDateEffect symbol day position preClose cash income (some r) withheld oldRule =
      .ok ex) :
    ∃ settled, ex = some settled ∧ settled.withheld = withheld ∧
      settled.quantityAfter = exDateShares position.quantity r ∧
      settled.credit = position.quantity * position.lastPrice -
        exDateShares position.quantity r * preClose := by
  unfold exDateEffect at effect
  dsimp only at effect
  split_ifs at effect
  exact ⟨_, (Except.ok.inj effect).symm, rfl, rfl, rfl⟩

theorem exDateEffect_none {day : Nat} {preClose cash income withheld : ℚ} {oldRule : Bool}
    (effect : exDateEffect symbol day position preClose cash income none withheld oldRule =
      .ok ex) :
    (income = 0 ∧ ex = none) ∨
    ∃ settled, ex = some settled ∧ settled.withheld = withheld ∧
      settled.quantityAfter = position.quantity ∧ settled.credit = position.quantity * cash := by
  unfold exDateEffect at effect
  dsimp only at effect
  by_cases flat : income = 0
  · rw [if_pos flat] at effect
    exact .inl ⟨flat, (Except.ok.inj effect).symm⟩
  · rw [if_neg flat] at effect
    exact .inr ⟨_, (Except.ok.inj effect).symm, rfl, rfl, rfl⟩

theorem fraction_eq {preClose cash r : ℚ} (positive : 0 < preClose)
    (named : r = (position.lastPrice - cash) / preClose) :
    position.quantity * position.lastPrice - exDateShares position.quantity r * preClose -
        position.quantity * cash =
      (position.quantity * r - exDateShares position.quantity r) * preClose := by
  have price : r * preClose = position.lastPrice - cash := by
    rw [named, div_mul_cancel₀ _ positive.ne']
  have last : position.lastPrice = r * preClose + cash := by linarith
  rw [last]
  ring

/-- An ex-date that applies a share multiplier exchanges shares and cash at equal value and
    pays no more for the part of a share left out than one share is worth; any other
    leaves the shares and pays the declared cash in full. -/
theorem ex_date_conserves {b b' : DailyBroker} {symbol : Symbol} {day : Nat} {position : Position}
    {bar : Bar} {distribution : Distribution}
    (settled : b.settleExDate symbol day position bar distribution = .ok b') :
    ∃ preClose ratio withheld old after,
      ExDateRead b.profile.dividendTax position bar distribution preClose ratio withheld old ∧
      b'.positions.get? symbol = some after ∧
      (∀ r, ratio = some r →
        position.quantity * position.lastPrice + b.cash =
            after.quantity * preClose + b'.cash + withheld ∧
        -shareTolerance * preClose ≤
          b'.cash + withheld - b.cash - position.quantity * distribution.cashPerShare ∧
        b'.cash + withheld - b.cash - position.quantity * distribution.cashPerShare < preClose) ∧
      (ratio = none → after.quantity = position.quantity ∧
        b'.cash + withheld = b.cash + position.quantity * distribution.cashPerShare) := by
  rcases DailyBroker.settleExDate_cases settled with ⟨effect, rfl⟩ | ⟨ex, lots, effect, -, -, rfl⟩
  · obtain ⟨preClose, ratio, withheld, old, read, effect⟩ := exDateOf_eq_ok effect
    refine ⟨preClose, ratio, withheld, old, position, read, Dict.get?_set_self _ _ _, ?_, ?_⟩
    · rintro r rfl
      obtain ⟨_, impossible, -⟩ := exDateEffect_some effect
      cases impossible
    · rintro rfl
      rcases exDateEffect_none effect with ⟨flat, -⟩ | ⟨_, impossible, -⟩
      · -- no cash is declared, so none is withheld
        have taxed := read.taxed
        rw [flat, exDateTax_zero] at taxed
        obtain ⟨rfl, -⟩ := Prod.mk.inj (Except.ok.inj taxed)
        have cash : distribution.cashPerShare = 0 := by simpa [deliveredIncome] using flat
        simp [cash]
      · cases impossible
  · obtain ⟨preClose, ratio, withheld, old, read, effect⟩ := exDateOf_eq_ok effect
    refine ⟨preClose, ratio, withheld, old, ex.position position, read,
      Dict.get?_set_self _ _ _, ?_, ?_⟩
    · rintro r rfl
      obtain ⟨_, same, rfl, shares, credit⟩ := exDateEffect_some effect
      obtain rfl := Option.some.inj same
      have positive := (price_eq_some read.quoted).2
      obtain ⟨named, -⟩ := exDateShareMultiplier_eq_some read.applies
      obtain ⟨low, high⟩ := exDateShares_bounds position.quantity r
      have fraction := fraction_eq positive named
      have paid : b.cash + (ex.credit - ex.withheld) + ex.withheld - b.cash -
          position.quantity * distribution.cashPerShare =
            (position.quantity * r - exDateShares position.quantity r) * preClose := by
        rw [credit]
        linarith
      refine ⟨?_, ?_, ?_⟩
      · show _ = (ex.quantityAfter : ℚ) * preClose + (b.cash + (ex.credit - ex.withheld)) + _
        rw [shares, credit]
        ring
      · show _ ≤ b.cash + (ex.credit - ex.withheld) + ex.withheld - b.cash - _
        rw [paid]
        exact mul_le_mul_of_nonneg_right low positive.le
      · show b.cash + (ex.credit - ex.withheld) + ex.withheld - b.cash - _ < _
        rw [paid]
        exact mul_lt_of_lt_one_left positive high
    · rintro rfl
      rcases exDateEffect_none effect with ⟨-, impossible⟩ | ⟨_, same, rfl, shares, credit⟩
      · cases impossible
      · obtain rfl := Option.some.inj same
        refine ⟨shares, ?_⟩
        show b.cash + (ex.credit - ex.withheld) + ex.withheld = _
        rw [credit]
        ring

/-- An account that holds 105 shares before a day that grants three for ten and pays cash. -/
def exDateAccount : DailyBroker :=
  let position : Position := ⟨105, 105, 10, 10⟩
  { DailyBroker.new .usual with positions := Dict.empty.set "600000.SH" position }

theorem exDateAccount_conserves : ∃ b', exDateAccount.settleExDate "600000.SH" 20240105
      ⟨105, 105, 10, 10⟩ { preClose := some (15 / 2) } { cashPerShare := 1 / 4 } = .ok b' ∧
    ∃ preClose ratio withheld old after,
      ExDateRead false ⟨105, 105, 10, 10⟩ { preClose := some (15 / 2) } { cashPerShare := 1 / 4 }
        preClose ratio withheld old ∧
      b'.positions.get? "600000.SH" = some after ∧
      (∀ r, ratio = some r →
        105 * 10 + exDateAccount.cash = after.quantity * preClose + b'.cash + withheld ∧
        -shareTolerance * preClose ≤ b'.cash + withheld - exDateAccount.cash - 105 * (1 / 4) ∧
        b'.cash + withheld - exDateAccount.cash - 105 * (1 / 4) < preClose) ∧
      (ratio = none → after.quantity = 105 ∧
        b'.cash + withheld = exDateAccount.cash + 105 * (1 / 4)) := by
  have settles : (exDateAccount.settleExDate "600000.SH" 20240105 ⟨105, 105, 10, 10⟩
      { preClose := some (15 / 2) } { cashPerShare := 1 / 4 }).toOption.isSome := by
    decide +kernel
  obtain ⟨b', settled⟩ := Option.isSome_iff_exists.mp settles
  exact ⟨b', toOption_eq_some.mp settled, ex_date_conserves (toOption_eq_some.mp settled)⟩

end AutoTrade
