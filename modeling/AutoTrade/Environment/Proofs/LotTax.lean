import AutoTrade.Environment.Proofs.BrokerClosure

/-!
# The tax of the first shares

A sale takes its shares first in, first out. What it owes is therefore a
difference of one curve: the tax of the first `n` shares of a name's lots
(`taxUpTo`). A sale shifts that curve, and lots without dividend income at its
end do not bend it.
-/

namespace AutoTrade

open DailyBroker

/-- Whether the lot has received dividend income. -/
def Lot.hasIncome (lot : Lot) : Bool :=
  lot.dividendIncomeNew ≠ 0 || lot.dividendIncomeOld ≠ 0

/-- What one share of the lot owes when it is sold on `day`. -/
def Lot.taxPerShare (lot : Lot) (day : Nat) : ℚ :=
  match dividendTaxDue lot.acquired day (lot.dividendIncomeOld / lot.quantity)
      (lot.dividendIncomeNew / lot.quantity) with
  | .ok due => due
  | .error _ => 0

/-- What the first `n` shares of the lots owe when they are sold on `day`. -/
def taxUpTo (day : Nat) : List Lot → Int → ℚ
  | [], _ => 0
  | lot :: rest, n =>
    ((min n lot.quantity : Int) : ℚ) * lot.taxPerShare day +
      taxUpTo day rest (n - min n lot.quantity)

theorem supplementDue_mul {acquired sold : Nat} {rule : DividendTaxRule} {income due k : ℚ}
    (h : supplementDue acquired sold rule income = .ok due) :
    supplementDue acquired sold rule (income * k) = .ok (due * k) := by
  unfold supplementDue at h ⊢
  by_cases none : income = 0
  · rw [if_pos none] at h
    obtain rfl := Except.ok.inj h
    simp [none]
  · rw [if_neg none] at h
    obtain ⟨rate, rated, h⟩ := bind_eq_ok.mp h
    obtain rfl := (pure_eq_ok.mp h).symm
    by_cases flat : k = 0
    · simp [flat]
    · rw [if_neg (mul_ne_zero none flat)]
      refine bind_eq_ok.mpr ⟨rate, rated, ?_⟩
      exact congrArg Except.ok (by ring)

theorem dividendTaxDue_mul {acquired sold : Nat} {old new due k : ℚ}
    (h : dividendTaxDue acquired sold old new = .ok due) :
    dividendTaxDue acquired sold (old * k) (new * k) = .ok (due * k) := by
  unfold dividendTaxDue at h ⊢
  obtain ⟨first, oldDue, h⟩ := bind_eq_ok.mp h
  obtain ⟨second, newDue, h⟩ := bind_eq_ok.mp h
  obtain rfl := (pure_eq_ok.mp h).symm
  refine bind_eq_ok.mpr ⟨_, supplementDue_mul oldDue, bind_eq_ok.mpr ⟨_, supplementDue_mul newDue, ?_⟩⟩
  exact congrArg Except.ok (by ring)

variable {day : Nat} {lot : Lot}

theorem Lot.taxPerShare_eq {due k : ℚ} (some : k ≠ 0)
    (h : dividendTaxDue lot.acquired day (lot.dividendIncomeOld * k / lot.quantity)
      (lot.dividendIncomeNew * k / lot.quantity) = .ok due) :
    due = k * lot.taxPerShare day := by
  have unit := dividendTaxDue_mul (k := 1 / k) h
  rw [show lot.dividendIncomeOld * k / (lot.quantity : ℚ) * (1 / k) =
      lot.dividendIncomeOld / lot.quantity by field_simp,
    show lot.dividendIncomeNew * k / (lot.quantity : ℚ) * (1 / k) =
      lot.dividendIncomeNew / lot.quantity by field_simp] at unit
  simp only [Lot.taxPerShare, unit]
  field_simp

@[simp] theorem dividendTaxDue_zero (acquired sold : Nat) :
    dividendTaxDue acquired sold 0 0 = .ok 0 := by
  simp [dividendTaxDue, supplementDue, bind, Except.bind, pure, Except.pure]

theorem Lot.taxPerShare_of_noIncome (h : lot.hasIncome = false) (day : Nat) :
    lot.taxPerShare day = 0 := by
  simp only [hasIncome, ne_eq, decide_not, Bool.or_eq_false_iff, Bool.not_eq_false',
    decide_eq_true_eq] at h
  simp only [taxPerShare, h.1, h.2, zero_div, dividendTaxDue_zero]

variable {lots : List Lot}

theorem taxUpTo_zero (day : Nat) (positive : ∀ lot ∈ lots, 0 < lot.quantity) :
    taxUpTo day lots 0 = 0 := by
  induction lots with
  | nil => rfl
  | cons lot rest ih =>
    have here := positive lot List.mem_cons_self
    simp only [taxUpTo, min_eq_left here.le, sub_zero, Int.cast_zero, zero_mul, zero_add]
    exact ih fun other member => positive other (List.mem_cons_of_mem _ member)

theorem taxUpTo_of_noIncome (day : Nat) (none : ∀ lot ∈ lots, lot.hasIncome = false) (n : Int) :
    taxUpTo day lots n = 0 := by
  induction lots generalizing n with
  | nil => rfl
  | cons lot rest ih =>
    simp only [taxUpTo, Lot.taxPerShare_of_noIncome (none lot List.mem_cons_self), mul_zero,
      zero_add]
    exact ih (fun other member => none other (List.mem_cons_of_mem _ member)) _

theorem taxUpTo_append (day : Nat) (lots : List Lot) (rest rest' : List Lot)
    (none : ∀ lot ∈ rest, lot.hasIncome = false) (none' : ∀ lot ∈ rest', lot.hasIncome = false)
    (n : Int) : taxUpTo day (lots ++ rest) n = taxUpTo day (lots ++ rest') n := by
  induction lots generalizing n with
  | nil => rw [List.nil_append, List.nil_append, taxUpTo_of_noIncome day none,
      taxUpTo_of_noIncome day none']
  | cons lot lots ih => simp only [List.cons_append, taxUpTo, ih]

/-- The lot a sale leaves of `lot` after taking `taken` of its shares. -/
def Lot.less (lot : Lot) (taken : Int) : Lot :=
  { lot with
    quantity := lot.quantity - taken
    dividendIncomeOld := lot.dividendIncomeOld - lot.dividendIncomeOld * taken / lot.quantity
    dividendIncomeNew := lot.dividendIncomeNew - lot.dividendIncomeNew * taken / lot.quantity }

theorem Lot.less_taxPerShare {taken : Int} (positive : 0 < lot.quantity)
    (left : taken < lot.quantity) (day : Nat) :
    (lot.less taken).taxPerShare day = lot.taxPerShare day := by
  have whole : (lot.quantity : ℚ) ≠ 0 := by exact_mod_cast positive.ne'
  have some : ((lot.quantity - taken : Int) : ℚ) ≠ 0 := by
    have : lot.quantity - taken ≠ 0 := by omega
    exact_mod_cast this
  have share : ∀ income : ℚ, (income - income * taken / lot.quantity) /
      ((lot.quantity - taken : Int) : ℚ) = income / lot.quantity := by
    intro income
    rw [Int.cast_sub] at some ⊢
    field_simp
  simp only [taxPerShare, less, share]

/-- What first in, first out takes of the lots: the tax is the curve's, the
curve left is the same curve shifted, and a lot left is one of the lots or what
is left of one. -/
structure Released (day : Nat) (q : Int) (lots : List Lot) (tax : ℚ) (left : List Lot) : Prop where
  tax_eq : tax = taxUpTo day lots q
  curve : ∀ n, 0 ≤ n → taxUpTo day left n = taxUpTo day lots (q + n) - taxUpTo day lots q
  positive : ∀ lot ∈ left, 0 < lot.quantity
  acquired : (left.map Lot.acquired).Sublist (lots.map Lot.acquired)
  income : ∀ lot ∈ left, ∃ lot' ∈ lots, lot'.acquired = lot.acquired ∧
    (lot.hasIncome = true → lot'.hasIncome = true)

theorem Lot.less_hasIncome (taken : Int) (h : (lot.less taken).hasIncome = true) :
    lot.hasIncome = true := by
  by_contra none
  simp only [hasIncome, ne_eq, decide_not, Bool.or_eq_true, Bool.not_eq_true',
    decide_eq_false_iff_not, not_or, not_not] at none
  simp [hasIncome, less, none.1, none.2] at h

theorem releaseLots_spec {symbol : Symbol} {q : Int} {lots left : List Lot} {tax : ℚ}
    (positive : ∀ lot ∈ lots, 0 < lot.quantity) (taken : 0 ≤ q)
    (h : releaseLots symbol day q lots = .ok (tax, left)) : Released day q lots tax left := by
  induction lots generalizing q tax left with
  | nil =>
    unfold releaseLots at h
    split_ifs at h with none
    simp only [Except.ok.injEq, Prod.mk.injEq] at h
    obtain ⟨rfl, rfl⟩ := h
    exact ⟨rfl, by simp [taxUpTo], by simp, List.Sublist.refl _, by simp⟩
  | cons lot rest ih =>
    have here := positive lot List.mem_cons_self
    have others := fun other member => positive other (List.mem_cons_of_mem lot member)
    unfold releaseLots at h
    by_cases none : q = 0
    · rw [if_pos none] at h
      simp only [Except.ok.injEq, Prod.mk.injEq] at h
      obtain ⟨rfl, rfl⟩ := h
      subst none
      have start := taxUpTo_zero day positive
      exact ⟨start.symm, fun n _ => by rw [zero_add, start, sub_zero], positive,
        List.Sublist.refl _, fun lot member => ⟨lot, member, rfl, id⟩⟩
    rw [if_neg none, if_neg here.ne'] at h
    dsimp only at h
    split at h
    · cases h
    rename_i due owed
    have some : ((min q lot.quantity : Int) : ℚ) ≠ 0 := by
      have : min q lot.quantity ≠ 0 := by omega
      exact_mod_cast this
    have dueEq := Lot.taxPerShare_eq some owed
    by_cases keeps : lot.quantity - min q lot.quantity ≠ 0
    · -- The lot keeps shares: it has met the whole quantity.
      rw [if_pos keeps] at h
      simp only [Except.ok.injEq, Prod.mk.injEq] at h
      obtain ⟨rfl, rfl⟩ := h
      have met : min q lot.quantity = q := by omega
      rw [met] at dueEq ⊢
      have start := taxUpTo_zero day others
      have first : taxUpTo day (lot :: rest) q = q * lot.taxPerShare day := by
        rw [taxUpTo, met, sub_self, start, add_zero]
      refine ⟨dueEq.trans first.symm, fun n bound => ?_, ?_, ?_, ?_⟩
      · have unit : (lot.less q).taxPerShare day = lot.taxPerShare day :=
          Lot.less_taxPerShare here (by omega) day
        have shares : min (q + n) lot.quantity = q + min n (lot.quantity - q) := by omega
        have further : q + n - min (q + n) lot.quantity = n - min n (lot.quantity - q) := by omega
        change taxUpTo day (lot.less q :: rest) n = _
        rw [first, taxUpTo, taxUpTo, unit, further, shares, show (lot.less q).quantity =
          lot.quantity - q from rfl, Int.cast_add]
        ring
      · intro other member
        rcases List.mem_cons.mp member with rfl | member
        · dsimp only
          omega
        · exact others other member
      · exact List.Sublist.refl _
      · intro other member
        rcases List.mem_cons.mp member with rfl | member
        · exact ⟨lot, List.mem_cons_self, rfl, Lot.less_hasIncome q⟩
        · exact ⟨other, List.mem_cons_of_mem _ member, rfl, id⟩
    · -- The lot is used up: the rest of the quantity comes from the lots behind it.
      rw [if_neg keeps] at h
      have whole : min q lot.quantity = lot.quantity := by omega
      split at h
      · cases h
      rename_i tax' left' released
      simp only [Except.ok.injEq, Prod.mk.injEq] at h
      obtain ⟨rfl, rfl⟩ := h
      rw [whole] at released dueEq
      have behind := ih others (by omega) released
      refine ⟨?_, fun n bound => ?_, behind.positive, behind.acquired.cons _, fun other member => ?_⟩
      · rw [taxUpTo, whole, dueEq, behind.tax_eq]
      · have further : min (q + n) lot.quantity = lot.quantity := by omega
        rw [behind.curve n bound, taxUpTo, taxUpTo, whole, further,
          show q - lot.quantity + n = q + n - lot.quantity by omega]
        ring
      · obtain ⟨lot', member', same, earned⟩ := behind.income other member
        exact ⟨lot', List.mem_cons_of_mem _ member', same, earned⟩

/-- The lots of one name: whole, in the order they were acquired, all before
`bound`, and with income only where an ex-date after their acquisition is on record. -/
structure LotsKept (bound : Nat) (dated : Nat → Bool) (lots : List Lot) : Prop where
  positive : ∀ lot ∈ lots, 0 < lot.quantity
  sorted : (lots.map Lot.acquired).Pairwise (· ≤ ·)
  acquired_lt : ∀ day ∈ lots.map Lot.acquired, day < bound
  dated : ∀ lot ∈ lots, lot.hasIncome = true → dated lot.acquired = true

theorem LotsKept.nil (bound : Nat) (dated : Nat → Bool) : LotsKept bound dated [] :=
  ⟨by simp, List.Pairwise.nil, by simp, by simp⟩

theorem LotsKept.mono {bound bound' : Nat} {dated dated' : Nat → Bool}
    (kept : LotsKept bound dated lots) (later : bound ≤ bound')
    (more : ∀ day, dated day = true → dated' day = true) : LotsKept bound' dated' lots :=
  ⟨kept.positive, kept.sorted, fun day member => (kept.acquired_lt day member).trans_le later,
    fun lot member earned => more _ (kept.dated lot member earned)⟩

theorem LotsKept.released {bound : Nat} {dated : Nat → Bool} {lots left : List Lot} {q : Int}
    {tax : ℚ} (kept : LotsKept bound dated lots) (h : Released day q lots tax left) :
    LotsKept bound dated left :=
  ⟨h.positive, kept.sorted.sublist h.acquired,
    fun day member => kept.acquired_lt day (h.acquired.mem member),
    fun lot member earned => by
      obtain ⟨lot', member', same, earned'⟩ := h.income lot member
      exact same ▸ kept.dated lot' member' (earned' earned)⟩

theorem LotsKept.bought {dated : Nat → Bool} {q : Int} (kept : LotsKept (day + 1) dated lots)
    (positive : 0 < q) :
    LotsKept (day + 1) dated (lots ++ [⟨q, day, 0, 0⟩]) := by
  refine ⟨fun lot member => ?_, ?_, fun day' member => ?_, fun lot member earned => ?_⟩
  · rcases List.mem_append.mp member with old | new
    · exact kept.positive lot old
    · exact List.mem_singleton.mp new ▸ positive
  · rw [List.map_append]
    refine List.pairwise_append.mpr ⟨kept.sorted, List.pairwise_singleton _ _, ?_⟩
    intro a old b new
    obtain rfl := List.mem_singleton.mp new
    exact Nat.le_of_lt_succ (kept.acquired_lt a old)
  · rw [List.map_append] at member
    rcases List.mem_append.mp member with old | new
    · exact kept.acquired_lt day' old
    · exact (List.mem_singleton.mp new).le.trans_lt (Nat.lt_succ_self day)
  · rcases List.mem_append.mp member with old | new
    · exact kept.dated lot old earned
    · rw [List.mem_singleton.mp new] at earned
      cases earned

theorem settleLots_spec (income : ℚ) (ratio : Option ℚ) (oldRule : Bool) (held settled : Int)
    (lots : List Lot) :
    (∀ lot ∈ settleLots income ratio oldRule held settled lots, 0 < lot.quantity) ∧
      ((settleLots income ratio oldRule held settled lots).map Lot.acquired).Sublist
        (lots.map Lot.acquired) := by
  induction lots generalizing held settled with
  | nil => simp [settleLots]
  | cons lot rest ih =>
    unfold settleLots
    dsimp only
    cases ratio with
    | none =>
      obtain ⟨positive, acquired⟩ := ih held settled
      dsimp only
      split_ifs with whole
      all_goals first
        | exact ⟨fun other member => (List.mem_cons.mp member).elim (fun here => here ▸ by assumption)
            (positive other), acquired.cons_cons _⟩
        | exact ⟨positive, acquired.cons _⟩
    | some r =>
      obtain ⟨positive, acquired⟩ := ih (held + lot.quantity)
        (exDateShares (held + lot.quantity) r)
      dsimp only
      split_ifs with whole
      all_goals first
        | exact ⟨fun other member => (List.mem_cons.mp member).elim (fun here => here ▸ by assumption)
            (positive other), acquired.cons_cons _⟩
        | exact ⟨positive, acquired.cons _⟩

namespace DailyBroker

def lotsOf (b : DailyBroker) (symbol : Symbol) : List Lot := (b.lots.get? symbol).getD []

/-- What the first `n` shares of a name owe the account when they are sold on `day`. -/
def taxCurve (b : DailyBroker) (day : Nat) (symbol : Symbol) (n : Int) : ℚ :=
  if b.profile.dividendTax then taxUpTo day (b.lotsOf symbol) n else 0

/-- Whether the account, or what is known of its past, records an ex-date of the
name after `session`. -/
def recordsExDate (b : DailyBroker) (past : Symbol → Nat → Bool) (symbol : Symbol) (session : Nat) :
    Bool :=
  b.corporateActions.any (fun action => action.symbol = symbol ∧ session < action.tradeDate) ||
    past symbol session

/-- The lots of every name are kept. -/
def LotsKept (b : DailyBroker) (bound : Nat) (past : Symbol → Nat → Bool) : Prop :=
  ∀ symbol, AutoTrade.LotsKept bound (b.recordsExDate past symbol) (b.lotsOf symbol)

theorem lotsOf_set (b : DailyBroker) (symbol other : Symbol) (lots : List Lot) :
    ((b.lots.set symbol lots).get? other).getD [] = if symbol = other then lots else b.lotsOf other := by
  rw [Dict.get?_set]
  split_ifs <;> rfl

theorem lotsOf_erase (b : DailyBroker) (symbol other : Symbol) :
    ((b.lots.erase symbol).get? other).getD [] = if symbol = other then [] else b.lotsOf other := by
  rw [Dict.get?_erase]
  split_ifs <;> rfl

variable {b b' : DailyBroker} {order : StrategyOrder} {day : Nat}

theorem buy_lotsOf {p cost : ℚ} (h : b.buy order day p cost = some b') (symbol : Symbol) :
    b'.lotsOf symbol = b.lotsOf symbol ++
      if b.profile.dividendTax ∧ order.symbol = symbol then [⟨order.quantity, day, 0, 0⟩] else [] := by
  obtain ⟨-, rfl⟩ := buy_eq_some h
  by_cases taxed : b.profile.dividendTax = true
  · simp only [lotsOf, taxed, if_true, true_and]
    rw [lotsOf_set]
    split_ifs with here
    · subst here
      rfl
    · rw [List.append_nil]
      rfl
  · simp [lotsOf, taxed]

theorem buy_taxCurve {p cost : ℚ} (h : b.buy order day p cost = some b') (sale : Nat)
    (symbol : Symbol) (n : Int) :
    b'.taxCurve sale symbol n = b.taxCurve sale symbol n := by
  have profile : b'.profile = b.profile := by
    obtain ⟨-, rfl⟩ := buy_eq_some h
    rfl
  unfold taxCurve
  rw [profile, buy_lotsOf h]
  have bend := taxUpTo_append sale (b.lotsOf symbol) (if b.profile.dividendTax ∧
    order.symbol = symbol then [⟨order.quantity, day, 0, 0⟩] else []) []
    (fun lot member => by
      split_ifs at member
      · rw [List.mem_singleton.mp member]
        rfl
      · cases member) (by simp) n
  rw [bend, List.append_nil]

variable {past : Symbol → Nat → Bool}

theorem buy_lotsKept {p cost : ℚ} (kept : b.LotsKept (day + 1) past)
    (h : b.buy order day p cost = some b') : b'.LotsKept (day + 1) past := by
  intro symbol
  have actions : b'.recordsExDate past symbol = b.recordsExDate past symbol := by
    obtain ⟨-, rfl⟩ := buy_eq_some h
    rfl
  rw [buy_lotsOf h, actions]
  split_ifs
  · exact (kept symbol).bought order.quantity_pos
  · rw [List.append_nil]
    exact kept symbol

variable {symbol : Symbol} {lots : Dict Symbol (List Lot)}

theorem saleLots_spec {b : DailyBroker} {q : Int} {tax : ℚ}
    (positive : ∀ lot ∈ b.lotsOf symbol, 0 < lot.quantity) (taken : 0 ≤ q)
    (taxed : b.profile.dividendTax = true) (h : b.saleLots symbol day q = .ok (tax, lots)) :
    ∃ left, Released day q (b.lotsOf symbol) tax left ∧
      ∀ other, (lots.get? other).getD [] = if symbol = other then left else b.lotsOf other := by
  unfold saleLots at h
  rw [if_pos taxed] at h
  unfold takeLots at h
  split at h
  · cases h
  rename_i held found
  have held_eq : b.lotsOf symbol = held := by rw [lotsOf, found]; rfl
  rw [held_eq] at positive ⊢
  split at h
  · cases h
  · rename_i tax' released
    simp only [Except.ok.injEq, Prod.mk.injEq] at h
    obtain ⟨rfl, rfl⟩ := h
    exact ⟨[], releaseLots_spec positive taken released, lotsOf_erase b symbol⟩
  · rename_i tax' left _ released
    simp only [Except.ok.injEq, Prod.mk.injEq] at h
    obtain ⟨rfl, rfl⟩ := h
    exact ⟨left, releaseLots_spec positive taken released, fun other => lotsOf_set b symbol other left⟩

theorem saleLots_untaxed {b : DailyBroker} {q : Int} {tax : ℚ}
    (untaxed : b.profile.dividendTax = false) (h : b.saleLots symbol day q = .ok (tax, lots)) :
    tax = 0 ∧ lots = b.lots := by
  simp only [saleLots, untaxed, Bool.false_eq_true, if_false, Except.ok.injEq, Prod.mk.injEq] at h
  exact ⟨h.1.symm, h.2.symm⟩

variable {p notional commission stampDuty tax realized : ℚ}

theorem sell_taxCurve (positive : ∀ symbol, ∀ lot ∈ b.lotsOf symbol, 0 < lot.quantity)
    (h : b.sell order day p notional commission stampDuty = .ok (b', tax, realized)) :
    tax = b.taxCurve day order.symbol order.quantity ∧
    (∀ n, 0 ≤ n → b'.taxCurve day order.symbol n =
      b.taxCurve day order.symbol (order.quantity + n) -
        b.taxCurve day order.symbol order.quantity) ∧
    (∀ symbol ≠ order.symbol, ∀ n, b'.taxCurve day symbol n = b.taxCurve day symbol n) ∧
    ∀ symbol, ∀ lot ∈ b'.lotsOf symbol, 0 < lot.quantity := by
  obtain ⟨position, lots, -, released, -, rfl⟩ := sell_eq_ok h
  by_cases taxed : b.profile.dividendTax = true
  · obtain ⟨left, fifo, ledger⟩ := saleLots_spec (positive _) order.quantity_pos.le taxed released
    simp only [taxCurve, lotsOf, withPosition, taxed, if_true, ledger]
    refine ⟨fifo.tax_eq, fifo.curve, fun symbol different n => ?_, fun symbol lot member => ?_⟩
    · rw [if_neg (Ne.symm different)]
    · by_cases here : order.symbol = symbol
      · rw [if_pos here] at member
        exact fifo.positive lot member
      · rw [if_neg here] at member
        exact positive symbol lot member
  · obtain ⟨rfl, rfl⟩ := saleLots_untaxed (by simpa using taxed) released
    simp only [taxCurve, lotsOf, withPosition, taxed]
    exact ⟨rfl, fun _ _ => by simp, fun _ _ _ => trivial, positive⟩

theorem sell_lotsKept {day bound : Nat} (kept : b.LotsKept bound past)
    (h : b.sell order day p notional commission stampDuty = .ok (b', tax, realized)) :
    b'.LotsKept bound past := by
  obtain ⟨position, lots, -, released, -, rfl⟩ := sell_eq_ok h
  intro symbol
  have actions : ({ b with cash := b.cash + (notional - commission - stampDuty - tax), lots } :
      DailyBroker).recordsExDate past symbol = b.recordsExDate past symbol := rfl
  by_cases taxed : b.profile.dividendTax = true
  · obtain ⟨left, fifo, ledger⟩ :=
      saleLots_spec (kept order.symbol).positive order.quantity_pos.le taxed released
    change AutoTrade.LotsKept bound (b.recordsExDate past symbol) ((lots.get? symbol).getD [])
    rw [ledger]
    split_ifs with here
    · exact here ▸ (kept order.symbol).released fifo
    · exact kept symbol
  · obtain ⟨-, rfl⟩ := saleLots_untaxed (by simpa using taxed) released
    exact kept symbol

variable {events : Symbol → Distribution} {bars : Symbol → Option Bar}

theorem openPosition_lotsKept {position : Position} (kept : b.LotsKept day past)
    (h : openPosition day bars events b (symbol, position) = .ok b') : b'.LotsKept day past := by
  rcases openPosition_cases h with rfl | ⟨bar, ex, lots, -, -, settled, rfl⟩
  · exact kept
  have recorded : ∀ other session, b.recordsExDate past other session = true →
      (b.withExDate symbol day (released position) (events symbol).cashPerShare ex
        lots).recordsExDate past other session = true := by
    intro other session before
    simp only [recordsExDate, withExDate, List.any_append, Bool.or_eq_true] at before ⊢
    rcases before with before | before
    · exact .inl (.inl before)
    · exact .inr before
  intro other
  have plain : AutoTrade.LotsKept day ((b.withExDate symbol day (released position)
      (events symbol).cashPerShare ex lots).recordsExDate past other) (b.lotsOf other) :=
    (kept other).mono (le_refl _) (recorded other)
  change AutoTrade.LotsKept day _ ((lots.get? other).getD [])
  unfold exDateLots at settled
  by_cases taxed : b.profile.dividendTax = true
  · rw [if_pos taxed] at settled
    split at settled
    · cases settled
    rename_i held found
    obtain rfl := Except.ok.inj settled
    rw [lotsOf_set]
    split_ifs with here
    · subst here
      have held_eq : b.lotsOf symbol = held := by rw [lotsOf, found]; rfl
      obtain ⟨positive, acquired⟩ := settleLots_spec ex.incomePerShare
        ex.ratio ex.oldRule 0 0 held
      rw [← held_eq] at positive acquired ⊢
      refine ⟨positive, (kept symbol).sorted.sublist acquired,
        fun a member => (kept symbol).acquired_lt a (acquired.mem member), fun lot member _ => ?_⟩
      -- The ex-date itself is the record every lot it reaches needs.
      have before := (kept symbol).acquired_lt _ (acquired.mem (List.mem_map_of_mem member))
      simp only [recordsExDate, withExDate, ExDate.action, List.any_append, List.any_cons,
        List.any_nil, Bool.or_false, Bool.or_eq_true, decide_eq_true_eq]
      exact .inl (.inr ⟨trivial, before⟩)
    · exact plain
  · rw [if_neg taxed] at settled
    obtain rfl := Except.ok.inj settled
    exact plain

theorem openDay_lotsKept (kept : b.LotsKept day past) (h : b.openDay day bars events = .ok b') :
    b'.LotsKept day past :=
  openDay_invariant (P := fun b => b.LotsKept day past) (fun _ kept => kept)
    (fun _ _ _ _ kept _ opens => openPosition_lotsKept kept opens) h kept

end DailyBroker

end AutoTrade
