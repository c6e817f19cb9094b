import AutoTrade.Environment.Proofs.LotShares

/-!
# A sale in two parts

First in, first out taxes a lot's shares alike, so a sale may be split: the parts owe
together what the whole owes, and leave what it leaves. The rate itself falls with the
holding period, over every calendar date.
-/

namespace AutoTrade

open DailyBroker

/-- What one share of the lot owes on `day`, or why it cannot be sold then. -/
def Lot.unitTax (lot : Lot) (day : Nat) : Except BrokerError ℚ :=
  (dividendTaxDue lot.acquired day (lot.dividendIncomeOld / lot.quantity)
    (lot.dividendIncomeNew / lot.quantity)).mapError .dividendTax

theorem supplementDue_scale (acquired sold : Nat) (rule : DividendTaxRule) (income : ℚ) {k : ℚ}
    (some : k ≠ 0) : supplementDue acquired sold rule (income * k) =
      (supplementDue acquired sold rule income).map fun due => due * k := by
  unfold supplementDue
  by_cases none : income = 0
  · simp [none, Except.map]
  · rw [if_neg none, if_neg (mul_ne_zero none some)]
    cases dividendTaxRate acquired sold rule with
    | error e => rfl
    | ok rate => exact congrArg Except.ok (by ring)

theorem dividendTaxDue_scale (acquired sold : Nat) (old new : ℚ) {k : ℚ} (some : k ≠ 0) :
    dividendTaxDue acquired sold (old * k) (new * k) =
      (dividendTaxDue acquired sold old new).map fun due => due * k := by
  unfold dividendTaxDue
  rw [supplementDue_scale _ _ _ _ some, supplementDue_scale _ _ _ _ some]
  cases supplementDue acquired sold oldRule old with
  | error e => rfl
  | ok oldDue =>
    cases supplementDue acquired sold newRule new with
    | error e => rfl
    | ok newDue => exact congrArg Except.ok (by ring)

theorem Lot.due_eq {lot : Lot} {day : Nat} {taken : Int} (some : taken ≠ 0) :
    (dividendTaxDue lot.acquired day (lot.dividendIncomeOld * taken / lot.quantity)
      (lot.dividendIncomeNew * taken / lot.quantity)).mapError BrokerError.dividendTax =
      (lot.unitTax day).map fun unit => unit * (taken : ℚ) := by
  have nonzero : (taken : ℚ) ≠ 0 := by exact_mod_cast some
  rw [mul_div_right_comm, mul_div_right_comm, dividendTaxDue_scale _ _ _ _ nonzero]
  unfold Lot.unitTax
  cases dividendTaxDue lot.acquired day (lot.dividendIncomeOld / lot.quantity)
    (lot.dividendIncomeNew / lot.quantity) <;> rfl

variable {lot : Lot}

theorem Lot.less_unitTax {taken : Int} (positive : 0 < lot.quantity) (left : taken < lot.quantity)
    (day : Nat) : (lot.less taken).unitTax day = lot.unitTax day := by
  have whole : (lot.quantity : ℚ) ≠ 0 := by exact_mod_cast positive.ne'
  have some : ((lot.quantity - taken : Int) : ℚ) ≠ 0 := by
    have : lot.quantity - taken ≠ 0 := by omega
    exact_mod_cast this
  have share : ∀ income : ℚ, (income - income * taken / lot.quantity) /
      ((lot.quantity - taken : Int) : ℚ) = income / lot.quantity := by
    intro income
    rw [Int.cast_sub] at some ⊢
    field_simp
  simp only [unitTax, less, share]

theorem Lot.less_less {taken more : Int} (positive : 0 < lot.quantity)
    (left : taken < lot.quantity) : (lot.less taken).less more = lot.less (taken + more) := by
  have whole : (lot.quantity : ℚ) ≠ 0 := by exact_mod_cast positive.ne'
  have some : ((lot.quantity - taken : Int) : ℚ) ≠ 0 := by
    have : lot.quantity - taken ≠ 0 := by omega
    exact_mod_cast this
  have share : ∀ income : ℚ, income - income * taken / lot.quantity -
      (income - income * taken / lot.quantity) * more / ((lot.quantity - taken : Int) : ℚ) =
        income - income * ((taken + more : Int) : ℚ) / lot.quantity := by
    intro income
    rw [Int.cast_sub] at some ⊢
    rw [Int.cast_add]
    field_simp
    ring
  simp only [less, share, sub_sub]

theorem releaseLots_zero (symbol : Symbol) (day : Nat) (lots : List Lot) :
    releaseLots symbol day 0 lots = .ok (0, lots) := by
  cases lots <;> rfl

variable {symbol : Symbol} {day : Nat} {q : Int}

theorem releaseLots_part {rest : List Lot} (some : 0 < q) (left : q < lot.quantity) :
    releaseLots symbol day q (lot :: rest) =
      (lot.unitTax day).map fun unit => (unit * (q : ℚ), lot.less q :: rest) := by
  have due := @Lot.due_eq lot day _ some.ne'
  unfold releaseLots
  rw [if_neg some.ne', if_neg (some.trans left).ne', min_eq_left left.le]
  dsimp only
  cases owed : dividendTaxDue lot.acquired day (lot.dividendIncomeOld * q / lot.quantity)
      (lot.dividendIncomeNew * q / lot.quantity) with
  | error e =>
    rw [owed] at due
    cases unit : lot.unitTax day with
    | error e' =>
      rw [unit] at due
      exact congrArg Except.error (Except.error.inj due)
    | ok unit' => rw [unit] at due; cases due
  | ok paid =>
    rw [owed] at due
    have keeps : lot.quantity - q ≠ 0 := by omega
    cases unit : lot.unitTax day with
    | error e' => rw [unit] at due; cases due
    | ok unit' =>
      rw [unit] at due
      obtain rfl : paid = unit' * q := Except.ok.inj due
      dsimp only
      rw [if_pos keeps]
      rfl

theorem releaseLots_whole {rest : List Lot} (positive : 0 < lot.quantity)
    (covers : lot.quantity ≤ q) :
    releaseLots symbol day q (lot :: rest) = (lot.unitTax day).bind fun unit =>
      (releaseLots symbol day (q - lot.quantity) rest).map fun out =>
        (unit * lot.quantity + out.1, out.2) := by
  have due := @Lot.due_eq lot day _ positive.ne'
  rw [releaseLots, if_neg (positive.trans_le covers).ne', if_neg positive.ne', min_eq_right covers]
  dsimp only
  cases owed : dividendTaxDue lot.acquired day (lot.dividendIncomeOld * lot.quantity / lot.quantity)
      (lot.dividendIncomeNew * lot.quantity / lot.quantity) with
  | error e =>
    rw [owed] at due
    cases unit : lot.unitTax day with
    | error e' =>
      rw [unit] at due
      exact congrArg Except.error (Except.error.inj due)
    | ok unit' => rw [unit] at due; cases due
  | ok paid =>
    rw [owed] at due
    cases unit : lot.unitTax day with
    | error e' => rw [unit] at due; cases due
    | ok unit' =>
      rw [unit] at due
      obtain rfl : paid = unit' * lot.quantity := Except.ok.inj due
      dsimp only [Except.bind]
      rw [if_neg (by omega)]
      cases releaseLots symbol day (q - lot.quantity) rest <;> rfl

theorem releaseLots_add (symbol : Symbol) (day : Nat) {q q' : Int} {lots : List Lot}
    (positive : ∀ lot ∈ lots, 0 < lot.quantity) (taken : 0 ≤ q) (more : 0 ≤ q') :
    releaseLots symbol day (q + q') lots = (releaseLots symbol day q lots).bind fun out =>
      (releaseLots symbol day q' out.2).map fun out' => (out.1 + out'.1, out'.2) := by
  have zero (lots : List Lot) : releaseLots symbol day q' lots =
      (releaseLots symbol day q' lots).map fun out' => (0 + out'.1, out'.2) := by
    cases releaseLots symbol day q' lots with
    | error e => rfl
    | ok out => simp [Except.map]
  induction lots generalizing q with
  | nil =>
    by_cases none : q = 0
    · rw [none, zero_add, releaseLots_zero]
      exact zero []
    · have some : q + q' ≠ 0 := by omega
      rw [releaseLots, if_neg some, releaseLots, if_neg none]
      rfl
  | cons lot rest ih =>
    have here := positive lot List.mem_cons_self
    have later := fun other member => positive other (List.mem_cons_of_mem lot member)
    rcases taken.eq_or_lt with rfl | some
    · rw [zero_add, releaseLots_zero]
      exact zero (lot :: rest)
    rcases Int.lt_or_le q lot.quantity with part | whole
    · rw [releaseLots_part some part]
      cases unit : lot.unitTax day with
      | error e =>
        rcases Int.lt_or_le (q + q') lot.quantity with part' | whole'
        · rw [releaseLots_part (by omega) part', unit]
          rfl
        · rw [releaseLots_whole here whole', unit]
          rfl
      | ok unit' =>
        -- the rest of the first lot is sold at the same tax a share
        have same : (lot.less q).unitTax day = .ok unit' := (Lot.less_unitTax here part day).trans unit
        have remains : (lot.less q).quantity = lot.quantity - q := rfl
        show _ = (releaseLots symbol day q' (lot.less q :: rest)).map _
        rcases more.eq_or_lt with rfl | some'
        · rw [add_zero, releaseLots_part some part, unit, releaseLots_zero]
          simp [Except.map]
        rcases Int.lt_or_le (q + q') lot.quantity with part' | whole'
        · rw [releaseLots_part (by omega) part', unit, releaseLots_part some' (by omega), same,
            Lot.less_less here part]
          simp only [Except.map, Except.ok.injEq, Prod.mk.injEq, and_true]
          push_cast
          ring
        · rw [releaseLots_whole here whole', unit, releaseLots_whole (by omega) (by omega), same,
            remains]
          have amount : q' - (lot.quantity - q) = q + q' - lot.quantity := by ring
          rw [amount]
          dsimp only [Except.bind]
          cases releaseLots symbol day (q + q' - lot.quantity) rest with
          | error e => rfl
          | ok out =>
            simp only [Except.map, Except.ok.injEq, Prod.mk.injEq, and_true]
            push_cast
            ring
    · rw [releaseLots_whole here whole, releaseLots_whole here (by omega)]
      cases lot.unitTax day with
      | error e => rfl
      | ok unit =>
        have amount : q + q' - lot.quantity = q - lot.quantity + q' := by ring
        dsimp only [Except.bind]
        rw [amount, ih later (by omega)]
        cases releaseLots symbol day (q - lot.quantity) rest with
        | error e => rfl
        | ok out =>
          dsimp only [Except.bind, Except.map]
          cases releaseLots symbol day q' out.2 with
          | error e => rfl
          | ok out' => simp [add_assoc]

theorem takeLots_add (b : DailyBroker) (symbol : Symbol) (day : Nat) {q q' : Int}
    (positive : ∀ lots, b.lots.get? symbol = some lots → ∀ lot ∈ lots, 0 < lot.quantity)
    (taken : 0 < q) (more : 0 < q') :
    b.takeLots symbol day (q + q') = (b.takeLots symbol day q).bind fun out =>
      (DailyBroker.takeLots { b with lots := out.2 } symbol day q').map fun out' =>
        (out.1 + out'.1, out'.2) := by
  unfold DailyBroker.takeLots
  cases held : b.lots.get? symbol with
  | none => rfl
  | some lots =>
    dsimp only
    rw [releaseLots_add symbol day (positive lots held) taken.le more.le]
    cases releaseLots symbol day q lots with
    | error e => rfl
    | ok out =>
      obtain ⟨tax, left⟩ := out
      dsimp only [Except.bind]
      cases left with
      | nil =>
        -- nothing is left to sell the second part from
        rw [releaseLots, if_neg more.ne']
        have gone : (b.lots.erase symbol).get? symbol = none := by
          rw [Dict.get?_erase, if_pos rfl]
        simp only [Except.map, gone]
      | cons lot rest =>
        have kept : (b.lots.set symbol (lot :: rest)).get? symbol = some (lot :: rest) := by
          rw [Dict.get?_set, if_pos rfl]
        simp only [kept]
        cases releaseLots symbol day q' (lot :: rest) with
        | error e => rfl
        | ok out' =>
          obtain ⟨tax', left'⟩ := out'
          cases left' with
          | nil => simp only [Except.map, Dict.erase_set]
          | cons lot' rest' => simp only [Except.map, Dict.set_set]

variable {tiers : List (Nat × ℚ)}

theorem tierRate_ge (start sale : Nat) {beyond least : ℚ} (above : least ≤ beyond)
    (all : ∀ tier ∈ tiers, least ≤ tier.2) :
    least ≤ tierRate start sale beyond tiers := by
  induction tiers with
  | nil => exact above
  | cons tier rest ih =>
    rw [tierRate]
    split_ifs
    · exact all tier List.mem_cons_self
    · exact ih fun other member => all other (List.mem_cons_of_mem tier member)

/-- What was withheld is no more than any rate of its rule. -/
def DividendTaxRule.Covers (rule : DividendTaxRule) : Prop :=
  rule.withholdingRate ≤ rule.rateBeyond ∧ ∀ tier ∈ rule.tiers, rule.withholdingRate ≤ tier.2

theorem oldRule_covers : oldRule.Covers := by
  refine ⟨by norm_num [oldRule], ?_⟩
  simp only [oldRule, holdingTiers, List.forall_mem_cons]
  norm_num

theorem newRule_covers : newRule.Covers := by
  refine ⟨by norm_num [newRule], ?_⟩
  simp only [newRule, holdingTiers, List.forall_mem_cons]
  norm_num

variable {rule : DividendTaxRule} {acquired sold : Nat}

theorem supplementDue_nonneg {income due : ℚ} (covers : rule.Covers) (earned : 0 ≤ income)
    (owed : supplementDue acquired sold rule income = .ok due) : 0 ≤ due := by
  unfold supplementDue at owed
  split_ifs at owed
  · exact (Except.ok.inj owed).le
  · obtain ⟨rate, rated, owed⟩ := bind_eq_ok.mp owed
    obtain rfl := pure_eq_ok.mp owed
    unfold dividendTaxRate at rated
    obtain ⟨start, -, rated⟩ := bind_eq_ok.mp rated
    obtain ⟨sale, -, rated⟩ := bind_eq_ok.mp rated
    obtain ⟨-, rated⟩ := guard_eq_ok.mp rated
    obtain rfl := pure_eq_ok.mp rated
    exact mul_nonneg earned (sub_nonneg.mpr (tierRate_ge start sale covers.1 covers.2))

theorem dividendTaxDue_nonneg {old new due : ℚ} (earnedOld : 0 ≤ old) (earnedNew : 0 ≤ new)
    (owed : dividendTaxDue acquired sold old new = .ok due) : 0 ≤ due := by
  unfold dividendTaxDue at owed
  obtain ⟨oldDue, owedOld, owed⟩ := bind_eq_ok.mp owed
  obtain ⟨newDue, owedNew, owed⟩ := bind_eq_ok.mp owed
  obtain rfl := pure_eq_ok.mp owed
  exact add_nonneg (supplementDue_nonneg oldRule_covers earnedOld owedOld)
    (supplementDue_nonneg newRule_covers earnedNew owedNew)

theorem releaseLots_nonneg {lots left : List Lot} {tax : ℚ} (fair : ∀ lot ∈ lots, lot.Fair)
    (taken : 0 ≤ q) (released : releaseLots symbol day q lots = .ok (tax, left)) : 0 ≤ tax := by
  induction lots generalizing q tax left with
  | nil =>
    unfold releaseLots at released
    split_ifs at released
    exact (Prod.mk.inj (Except.ok.inj released)).1.le
  | cons lot rest ih =>
    have here := fair lot List.mem_cons_self
    have shares : (0 : ℚ) ≤ lot.quantity := by exact_mod_cast here.positive.le
    have unitNonneg {unit : ℚ} (owed : lot.unitTax day = .ok unit) : 0 ≤ unit := by
      unfold Lot.unitTax at owed
      cases due : dividendTaxDue lot.acquired day (lot.dividendIncomeOld / lot.quantity)
          (lot.dividendIncomeNew / lot.quantity) with
      | error e => rw [due] at owed; cases owed
      | ok paid =>
        rw [due] at owed
        obtain rfl : paid = unit := Except.ok.inj owed
        exact dividendTaxDue_nonneg (div_nonneg here.old_nonneg shares)
          (div_nonneg here.new_nonneg shares) due
    rcases taken.eq_or_lt with rfl | some
    · rw [releaseLots_zero] at released
      exact (Prod.mk.inj (Except.ok.inj released)).1.le
    rcases Int.lt_or_le q lot.quantity with part | whole
    · rw [releaseLots_part some part, except_map_eq_ok] at released
      obtain ⟨unit, owed, same⟩ := released
      obtain ⟨rfl, rfl⟩ := Prod.mk.inj same
      exact mul_nonneg (unitNonneg owed) (by exact_mod_cast some.le)
    · rw [releaseLots_whole here.positive whole] at released
      obtain ⟨unit, owed, released⟩ := bind_eq_ok.mp released
      obtain ⟨⟨later, left'⟩, rest', same⟩ := except_map_eq_ok.mp released
      obtain ⟨rfl, rfl⟩ := Prod.mk.inj same
      exact add_nonneg (mul_nonneg (unitNonneg owed) shares)
        (ih (fun other member => fair other (List.mem_cons_of_mem lot member)) (by omega) rest')

theorem takeLots_nonneg {b : DailyBroker} {tax : ℚ} {ledger : Dict Symbol (List Lot)}
    (fair : ∀ lots, b.lots.get? symbol = some lots → ∀ lot ∈ lots, lot.Fair) (taken : 0 ≤ q)
    (sold : b.takeLots symbol day q = .ok (tax, ledger)) : 0 ≤ tax := by
  unfold DailyBroker.takeLots at sold
  cases held : b.lots.get? symbol with
  | none => rw [held] at sold; cases sold
  | some lots =>
    rw [held] at sold
    dsimp only at sold
    cases released : releaseLots symbol day q lots with
    | error e => rw [released] at sold; cases sold
    | ok out =>
      obtain ⟨paid, left⟩ := out
      have paidNonneg := releaseLots_nonneg (fair lots held) taken released
      rw [released] at sold
      cases left with
      | nil => exact (Prod.mk.inj (Except.ok.inj sold)).1 ▸ paidNonneg
      | cons lot rest => exact (Prod.mk.inj (Except.ok.inj sold)).1 ▸ paidNonneg

/-- The number before the first day of a month, counted from January of year 0. -/
def monthStart (month : Nat) : Nat := month / 12 * 10000 + (month % 12 + 1) * 100

theorem monthStart_lt {month later : Nat} (h : month < later) :
    monthStart month + 100 ≤ monthStart later := by
  unfold monthStart
  omega

theorem validDate_spec (valid : parseDay (some day) = .ok day) :
    1 ≤ day / 100 % 100 ∧ day / 100 % 100 ≤ 12 ∧ 1 ≤ day % 100 ∧ day % 100 ≤ 31 := by
  unfold parseDay at valid
  dsimp only at valid
  split_ifs at valid with named
  simp only [validDate, Bool.and_eq_true, decide_eq_true_eq] at named
  obtain ⟨⟨⟨-, -⟩, first⟩, last⟩ := named
  unfold daysInMonth at last
  split at last <;> first | omega | (split at last <;> omega)

theorem monthsLater_eq (day months : Nat) :
    monthsLater day months =
      let month := day / 10000 * 12 + (day / 100 % 100 - 1) + months
      if validDate (month / 12) (month % 12 + 1) (day % 100) then monthStart month + day % 100
      else monthStart (month + 1) + 1 := by
  unfold monthsLater
  dsimp only
  split_ifs
  · rfl
  · unfold dateNumber monthStart
    omega

theorem validDate_le {year month day earlier : Nat} (valid : validDate year month day)
    (some : 1 ≤ earlier) (before : earlier ≤ day) : validDate year month earlier := by
  simp only [validDate, Bool.and_eq_true, decide_eq_true_eq] at valid ⊢
  omega

theorem monthsLater_mono {start later : Nat} (valid : parseDay (some start) = .ok start)
    (valid' : parseDay (some later) = .ok later) (h : start ≤ later) (months : Nat) :
    monthsLater start months ≤ monthsLater later months := by
  obtain ⟨month, month', first, last⟩ := validDate_spec valid
  obtain ⟨monthL, monthL', firstL, lastL⟩ := validDate_spec valid'
  rw [monthsLater_eq, monthsLater_eq]
  dsimp only
  have order : start / 10000 * 12 + (start / 100 % 100 - 1) <
        later / 10000 * 12 + (later / 100 % 100 - 1) ∨
      start / 10000 * 12 + (start / 100 % 100 - 1) =
        later / 10000 * 12 + (later / 100 % 100 - 1) ∧ start % 100 ≤ later % 100 := by
    omega
  rcases order with less | ⟨same, days⟩
  · -- the earlier month ends before the later one begins
    have next := monthStart_lt (Nat.lt_add_one
      (start / 10000 * 12 + (start / 100 % 100 - 1) + months))
    have after : start / 10000 * 12 + (start / 100 % 100 - 1) + months + 1 ≤
        later / 10000 * 12 + (later / 100 % 100 - 1) + months := by omega
    have begins : monthStart (start / 10000 * 12 + (start / 100 % 100 - 1) + months + 1) ≤
        monthStart (later / 10000 * 12 + (later / 100 % 100 - 1) + months) := by
      rcases after.eq_or_lt with equal | less'
      · rw [equal]
      · exact (Nat.le_add_right _ _).trans (monthStart_lt less')
    have nextL := monthStart_lt (Nat.lt_add_one
      (later / 10000 * 12 + (later / 100 % 100 - 1) + months))
    split_ifs <;> omega
  · rw [same]
    have next := monthStart_lt (Nat.lt_add_one
      (later / 10000 * 12 + (later / 100 % 100 - 1) + months))
    split_ifs with shorter longer longer
    · omega
    · omega
    · exact absurd (validDate_le longer first days) shorter
    · exact le_rfl

/-- Rates that fall from each tier to the next, and to the rate beyond them. -/
def Falling (beyond : ℚ) (tiers : List (Nat × ℚ)) : Prop :=
  (∀ tier ∈ tiers, beyond ≤ tier.2) ∧ tiers.Pairwise fun tier later => later.2 ≤ tier.2

variable {beyond : ℚ} {rest : List (Nat × ℚ)}

theorem Falling.tail {tier : Nat × ℚ} (falling : Falling beyond (tier :: rest)) :
    Falling beyond rest :=
  ⟨fun other member => falling.1 other (List.mem_cons_of_mem tier member),
    (List.pairwise_cons.mp falling.2).2⟩

theorem tierRate_le_head {start sale : Nat} {tier : Nat × ℚ}
    (falling : Falling beyond (tier :: rest)) : tierRate start sale beyond rest ≤ tier.2 := by
  have later := (List.pairwise_cons.mp falling.2).1
  have last := falling.1 tier List.mem_cons_self
  clear falling
  induction rest with
  | nil => exact last
  | cons other rest ih =>
    rw [tierRate]
    split_ifs
    · exact later other List.mem_cons_self
    · exact ih fun another member => later another (List.mem_cons_of_mem other member)

theorem tierRate_sale {start sale sale' : Nat} (falling : Falling beyond tiers) (h : sale ≤ sale') :
    tierRate start sale' beyond tiers ≤ tierRate start sale beyond tiers := by
  induction tiers with
  | nil => exact le_rfl
  | cons tier rest ih =>
    rw [tierRate, tierRate]
    by_cases late : sale' ≤ monthsLater start tier.1
    · rw [if_pos late, if_pos (h.trans late)]
    · rw [if_neg late]
      split_ifs
      · exact tierRate_le_head falling
      · exact ih falling.tail

theorem tierRate_acquired {start start' sale : Nat} (falling : Falling beyond tiers)
    (h : ∀ months, monthsLater start months ≤ monthsLater start' months) :
    tierRate start sale beyond tiers ≤ tierRate start' sale beyond tiers := by
  induction tiers with
  | nil => exact le_rfl
  | cons tier rest ih =>
    rw [tierRate, tierRate]
    by_cases early : sale ≤ monthsLater start tier.1
    · rw [if_pos early, if_pos (early.trans (h tier.1))]
    · rw [if_neg early]
      split_ifs
      · exact tierRate_le_head falling
      · exact ih falling.tail

variable {recordDate : Option Nat}

theorem dividendTaxRule_falling (selected : dividendTaxRule recordDate = .ok rule) :
    Falling rule.rateBeyond rule.tiers := by
  unfold dividendTaxRule at selected
  obtain ⟨day, -, selected⟩ := bind_eq_ok.mp selected
  obtain ⟨-, selected⟩ := guard_eq_ok.mp selected
  obtain rfl := pure_eq_ok.mp selected
  split_ifs
  · constructor
    · simp only [oldRule, holdingTiers, List.forall_mem_cons]
      norm_num
    · norm_num [oldRule, holdingTiers]
  · constructor
    · simp only [newRule, holdingTiers, List.forall_mem_cons]
      norm_num
    · norm_num [newRule, holdingTiers]

theorem dividendTaxRate_eq_ok {rate : ℚ} (rated : dividendTaxRate acquired sold rule = .ok rate) :
    parseDay (some acquired) = .ok acquired ∧ parseDay (some sold) = .ok sold ∧
      rate = tierRate acquired sold rule.rateBeyond rule.tiers := by
  have parses {day out : Nat} (read : parseDay (some day) = .ok out) : out = day := by
    unfold parseDay at read
    dsimp only at read
    split_ifs at read
    exact (Except.ok.inj read).symm
  unfold dividendTaxRate at rated
  obtain ⟨start, read, rest⟩ := bind_eq_ok.mp rated
  obtain ⟨sale, read', checked⟩ := bind_eq_ok.mp rest
  obtain ⟨-, found⟩ := guard_eq_ok.mp checked
  have same := parses read
  have same' := parses read'
  subst same same'
  exact ⟨read, read', (pure_eq_ok.mp found).symm⟩

theorem rate_falls_in_sale (selected : dividendTaxRule recordDate = .ok rule)
    {acquired sold later : Nat} {rate rate' : ℚ}
    (rated : dividendTaxRate acquired sold rule = .ok rate)
    (rated' : dividendTaxRate acquired later rule = .ok rate') (h : sold ≤ later) :
    rate' ≤ rate := by
  obtain ⟨-, -, rfl⟩ := dividendTaxRate_eq_ok rated
  obtain ⟨-, -, rfl⟩ := dividendTaxRate_eq_ok rated'
  exact tierRate_sale (dividendTaxRule_falling selected) h

theorem rate_grows_in_acquisition (selected : dividendTaxRule recordDate = .ok rule)
    {acquired later sold : Nat} {rate rate' : ℚ}
    (rated : dividendTaxRate acquired sold rule = .ok rate)
    (rated' : dividendTaxRate later sold rule = .ok rate') (h : acquired ≤ later) :
    rate ≤ rate' := by
  obtain ⟨valid, -, rfl⟩ := dividendTaxRate_eq_ok rated
  obtain ⟨valid', -, rfl⟩ := dividendTaxRate_eq_ok rated'
  exact tierRate_acquired (dividendTaxRule_falling selected) (monthsLater_mono valid valid' h)

/-- A sale of a book's lots may be split in two on its day, owes no negative tax, and
    meets a rate that falls with the holding period. -/
theorem dividend_tax_path_independent (b : DailyBroker) (symbol : Symbol)
    (fair : ∀ lots, b.lots.get? symbol = some lots → ∀ lot ∈ lots, lot.Fair) :
    (∀ (day : Nat) (q q' : Int), 0 < q → 0 < q' →
      b.takeLots symbol day (q + q') = (b.takeLots symbol day q).bind fun out =>
        (DailyBroker.takeLots { b with lots := out.2 } symbol day q').map fun out' =>
          (out.1 + out'.1, out'.2)) ∧
    (∀ (day : Nat) (q : Int) tax ledger, 0 ≤ q →
      b.takeLots symbol day q = .ok (tax, ledger) → 0 ≤ tax) ∧
    ∀ recordDate rule, dividendTaxRule recordDate = .ok rule →
      (∀ acquired sold later rate rate', dividendTaxRate acquired sold rule = .ok rate →
        dividendTaxRate acquired later rule = .ok rate' → sold ≤ later → rate' ≤ rate) ∧
      ∀ acquired later sold rate rate', dividendTaxRate acquired sold rule = .ok rate →
        dividendTaxRate later sold rule = .ok rate' → acquired ≤ later → rate ≤ rate' := by
  refine ⟨fun day q q' some more => ?_, fun day q tax ledger taken sold => ?_,
    fun recordDate rule selected => ⟨?_, ?_⟩⟩
  · exact takeLots_add b symbol day
      (fun lots held lot member => (fair lots held lot member).positive) some more
  · exact takeLots_nonneg fair taken sold
  · intro acquired sold later rate rate' rated rated' h
    exact rate_falls_in_sale selected rated rated' h
  · intro acquired later sold rate rate' rated rated' h
    exact rate_grows_in_acquisition selected rated rated' h

/-- A book of two lots of one name. -/
def twoLotBook : DailyBroker :=
  let lots : List Lot := [{ quantity := 100, acquired := 20230131, dividendIncomeNew := 10 },
    { quantity := 200, acquired := 20230228, dividendIncomeNew := 30 }]
  { DailyBroker.new .usual with lots := Dict.empty.set "600000.SH" lots }

theorem twoLotBook_split :
    twoLotBook.takeLots "600000.SH" 20230301 (150 + 50) =
      (twoLotBook.takeLots "600000.SH" 20230301 150).bind fun out =>
        (DailyBroker.takeLots { twoLotBook with lots := out.2 } "600000.SH" 20230301 50).map
          fun out' => (out.1 + out'.1, out'.2) := by
  have fair : ∀ lots, twoLotBook.lots.get? "600000.SH" = some lots → ∀ lot ∈ lots, lot.Fair := by
    intro lots held
    have found : twoLotBook.lots.get? "600000.SH" = some _ := rfl
    obtain rfl := Option.some.inj (found.symm.trans held)
    simp only [List.forall_mem_cons]
    exact ⟨⟨by decide, by decide, by decide⟩, ⟨by decide, by decide, by decide⟩, by simp⟩
  exact (dividend_tax_path_independent twoLotBook "600000.SH" fair).1 20230301 150 50
    (by decide) (by decide)

end AutoTrade
