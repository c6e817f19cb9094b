import AutoTrade.Environment.Proofs.LotTax

/-!
# The shares of a lot ledger

An ex-date resizes the lots of a name on their running totals, so that they add up
to what the position became; a sale takes shares from the oldest lots. The lots a
sale asks for their tax are older than the sale when it sells no more than the
seasoned ones hold.
-/

namespace AutoTrade

open DailyBroker

theorem roundHalfEven_bounds (x : ℚ) : ⌊x⌋ ≤ roundHalfEven x ∧ roundHalfEven x ≤ ⌊x⌋ + 1 := by
  unfold roundHalfEven
  dsimp only
  split_ifs <;> omega

theorem roundHalfEven_mono {x y : ℚ} (h : x ≤ y) : roundHalfEven x ≤ roundHalfEven y := by
  have floors := Int.floor_mono h
  rcases floors.lt_or_eq with below | same
  · have upper := (roundHalfEven_bounds x).2
    have lower := (roundHalfEven_bounds y).1
    omega
  · have part : x - (⌊x⌋ : ℚ) ≤ y - (⌊y⌋ : ℚ) := by
      rw [same]
      linarith
    unfold roundHalfEven
    dsimp only
    rw [same] at part ⊢
    split_ifs <;> first | omega | linarith

theorem exDateShares_mono {r : ℚ} (positive : 0 < r) {q q' : Int} (h : q ≤ q') :
    exDateShares q r ≤ exDateShares q' r := by
  have shares : (q : ℚ) * r ≤ q' * r := by
    have cast : (q : ℚ) ≤ q' := by exact_mod_cast h
    exact mul_le_mul_of_nonneg_right cast positive.le
  have rounded : roundHalfEven (q * r * 1000000) ≤ roundHalfEven (q' * r * 1000000) :=
    roundHalfEven_mono (by linarith)
  apply Int.floor_mono
  unfold round6
  have cast : (roundHalfEven (q * r * 1000000) : ℚ) ≤ roundHalfEven (q' * r * 1000000) := by
    exact_mod_cast rounded
  linarith

theorem exDateShares_zero (r : ℚ) : exDateShares 0 r = 0 := by
  simp [exDateShares, round6, roundHalfEven]

/-- The shares of a list of lots. -/
def sharesOf (lots : List Lot) : Int := (lots.map Lot.quantity).sum

@[simp] theorem sharesOf_nil : sharesOf [] = 0 := rfl

@[simp] theorem sharesOf_cons (lot : Lot) (lots : List Lot) :
    sharesOf (lot :: lots) = lot.quantity + sharesOf lots := by
  simp [sharesOf]

@[simp] theorem sharesOf_append (lots more : List Lot) :
    sharesOf (lots ++ more) = sharesOf lots + sharesOf more := by
  simp [sharesOf]

/-- The shares of the lots acquired before `day`. -/
def seasoned (day : Nat) (lots : List Lot) : Int :=
  sharesOf (lots.filter fun lot => lot.acquired < day)

/-- A lot holds shares, and no negative income. -/
structure Lot.Fair (lot : Lot) : Prop where
  positive : 0 < lot.quantity
  old_nonneg : 0 ≤ lot.dividendIncomeOld
  new_nonneg : 0 ≤ lot.dividendIncomeNew

variable {lots : List Lot}

theorem sharesOf_nonneg (fair : ∀ lot ∈ lots, lot.Fair) : 0 ≤ sharesOf lots := by
  induction lots with
  | nil => rfl
  | cons lot lots ih =>
    have here := (fair lot List.mem_cons_self).positive
    have rest := ih fun other member => fair other (List.mem_cons_of_mem _ member)
    rw [sharesOf_cons]
    omega

theorem eq_nil_of_sharesOf (fair : ∀ lot ∈ lots, lot.Fair) (none : sharesOf lots = 0) :
    lots = [] := by
  cases lots with
  | nil => rfl
  | cons lot lots =>
    have here := (fair lot List.mem_cons_self).positive
    have rest := sharesOf_nonneg fun other member => fair other (List.mem_cons_of_mem _ member)
    rw [sharesOf_cons] at none
    omega

theorem seasoned_cons (day : Nat) (lot : Lot) (lots : List Lot) :
    seasoned day (lot :: lots) =
      (if lot.acquired < day then lot.quantity else 0) + seasoned day lots := by
  unfold seasoned
  by_cases old : lot.acquired < day
  · rw [List.filter_cons_of_pos (by simpa using old), if_pos old, sharesOf_cons]
  · rw [List.filter_cons_of_neg (by simpa using old), if_neg old, zero_add]

theorem seasoned_append (day : Nat) (lots more : List Lot) :
    seasoned day (lots ++ more) = seasoned day lots + seasoned day more := by
  simp [seasoned]

variable {day : Nat}

theorem seasoned_eq_sharesOf (before : ∀ lot ∈ lots, lot.acquired < day) :
    seasoned day lots = sharesOf lots := by
  unfold seasoned
  rw [List.filter_eq_self.mpr fun lot member => decide_eq_true (before lot member)]

theorem seasoned_eq_zero (since : ∀ lot ∈ lots, day ≤ lot.acquired) : seasoned day lots = 0 := by
  unfold seasoned
  rw [List.filter_eq_nil_iff.mpr fun lot member => by simpa using since lot member]
  rfl

/-- A lot with the income of an ex-date. -/
def Lot.credited (lot : Lot) (income : ℚ) (oldRule : Bool) : Lot :=
  if oldRule then { lot with dividendIncomeOld := lot.dividendIncomeOld + lot.quantity * income }
  else { lot with dividendIncomeNew := lot.dividendIncomeNew + lot.quantity * income }

theorem Lot.credited_quantity (lot : Lot) (income : ℚ) (oldRule : Bool) :
    (lot.credited income oldRule).quantity = lot.quantity := by
  cases oldRule <;> rfl

theorem Lot.Fair.credited {lot : Lot} (fair : lot.Fair) {income : ℚ} (earned : 0 ≤ income)
    (oldRule : Bool) : (lot.credited income oldRule).Fair := by
  have received : (0 : ℚ) ≤ lot.quantity * income := by
    have cast : (0 : ℚ) ≤ lot.quantity := by exact_mod_cast fair.positive.le
    exact mul_nonneg cast earned
  cases oldRule with
  | false => exact ⟨fair.positive, fair.old_nonneg, add_nonneg fair.new_nonneg received⟩
  | true => exact ⟨fair.positive, add_nonneg fair.old_nonneg received, fair.new_nonneg⟩

theorem settleLots_none_cons (income : ℚ) (oldRule : Bool) (held settled : Int) (lot : Lot)
    (lots : List Lot) :
    settleLots income none oldRule held settled (lot :: lots) =
      if 0 < lot.quantity then
        lot.credited income oldRule :: settleLots income none oldRule held settled lots
      else settleLots income none oldRule held settled lots := by
  cases oldRule <;> rfl

theorem settleLots_some_cons (income r : ℚ) (oldRule : Bool) (held settled : Int) (lot : Lot)
    (lots : List Lot) :
    settleLots income (some r) oldRule held settled (lot :: lots) =
      if 0 < exDateShares (held + lot.quantity) r - settled then
        { lot.credited income oldRule with
          quantity := exDateShares (held + lot.quantity) r - settled } ::
          settleLots income (some r) oldRule (held + lot.quantity)
            (exDateShares (held + lot.quantity) r) lots
      else settleLots income (some r) oldRule (held + lot.quantity)
        (exDateShares (held + lot.quantity) r) lots := by
  cases oldRule <;> rfl

theorem settleLots_fair {income : ℚ} (earned : 0 ≤ income) (ratio : Option ℚ) (oldRule : Bool)
    (held settled : Int) (fair : ∀ lot ∈ lots, lot.Fair) :
    ∀ lot ∈ settleLots income ratio oldRule held settled lots, lot.Fair := by
  induction lots generalizing held settled with
  | nil => simp [settleLots]
  | cons lot lots ih =>
    have rest := fun held settled => ih held settled
      fun other member => fair other (List.mem_cons_of_mem _ member)
    have here := fair lot List.mem_cons_self
    have credited := here.credited earned oldRule
    cases ratio with
    | none =>
      rw [settleLots_none_cons, if_pos here.positive]
      exact List.forall_mem_cons.mpr ⟨credited, rest held settled⟩
    | some r =>
      rw [settleLots_some_cons]
      split
      · rename_i whole
        exact List.forall_mem_cons.mpr
          ⟨⟨whole, credited.old_nonneg, credited.new_nonneg⟩, rest _ _⟩
      · exact rest _ _

theorem sharesOf_settleLots_none (income : ℚ) (oldRule : Bool) (held settled : Int)
    (positive : ∀ lot ∈ lots, 0 < lot.quantity) :
    sharesOf (settleLots income none oldRule held settled lots) = sharesOf lots := by
  induction lots generalizing held settled with
  | nil => rfl
  | cons lot lots ih =>
    have rest := ih held settled fun other member => positive other (List.mem_cons_of_mem _ member)
    rw [settleLots_none_cons, if_pos (positive lot List.mem_cons_self), sharesOf_cons, sharesOf_cons,
      rest, Lot.credited_quantity]

theorem sharesOf_settleLots_some {r : ℚ} (growing : 0 < r) (income : ℚ) (oldRule : Bool)
    (held : Int) (positive : ∀ lot ∈ lots, 0 < lot.quantity) :
    sharesOf (settleLots income (some r) oldRule held (exDateShares held r) lots) =
      exDateShares (held + sharesOf lots) r - exDateShares held r := by
  induction lots generalizing held with
  | nil => simp [settleLots]
  | cons lot lots ih =>
    have here := positive lot List.mem_cons_self
    have rest := ih (held + lot.quantity)
      fun other member => positive other (List.mem_cons_of_mem _ member)
    have more : exDateShares held r ≤ exDateShares (held + lot.quantity) r :=
      exDateShares_mono growing (by omega)
    rw [settleLots_some_cons, sharesOf_cons, ← add_assoc]
    split
    · rw [sharesOf_cons, rest]
      dsimp only
      omega
    · rw [rest]
      omega

/-- The lots a sale of `quantity` asks for their tax. -/
def askedLots : Int → List Lot → List Lot
  | _, [] => []
  | quantity, lot :: rest =>
    if quantity = 0 then [] else lot :: askedLots (quantity - min quantity lot.quantity) rest

/-- The lots of a name on `day`: fair, oldest first, none acquired later. -/
structure InOrder (day : Nat) (lots : List Lot) : Prop where
  fair : ∀ lot ∈ lots, lot.Fair
  sorted : (lots.map Lot.acquired).Pairwise (· ≤ ·)
  acquired_le : ∀ lot ∈ lots, lot.acquired ≤ day

theorem InOrder.tail {lot : Lot} (order : InOrder day (lot :: lots)) :
    InOrder day lots where
  fair := fun other member => order.fair other (List.mem_cons_of_mem _ member)
  sorted := (List.pairwise_cons.mp order.sorted).2
  acquired_le := fun other member => order.acquired_le other (List.mem_cons_of_mem _ member)

variable {q : Int}

theorem InOrder.head_seasoned {lot : Lot} (order : InOrder day (lot :: lots)) (some : 0 < q)
    (covered : q ≤ seasoned day (lot :: lots)) : lot.acquired < day := by
  by_contra fresh
  have today : ∀ other ∈ lot :: lots, day ≤ other.acquired := by
    intro other member
    rcases List.mem_cons.mp member with rfl | later
    · exact not_lt.mp fresh
    · exact (not_lt.mp fresh).trans
        ((List.pairwise_cons.mp order.sorted).1 _ (List.mem_map_of_mem later))
  rw [seasoned_eq_zero today] at covered
  omega

theorem askedLots_seasoned (order : InOrder day lots) (taken : 0 ≤ q)
    (covered : q ≤ seasoned day lots) :
    ∀ lot ∈ askedLots q lots, lot.acquired < day := by
  induction lots generalizing q with
  | nil => simp [askedLots]
  | cons lot lots ih =>
    intro asked member
    unfold askedLots at member
    by_cases none : q = 0
    · simp [none] at member
    rw [if_neg none] at member
    have old := order.head_seasoned (by omega) covered
    have positive := (order.fair lot List.mem_cons_self).positive
    rw [seasoned_cons, if_pos old] at covered
    rcases List.mem_cons.mp member with rfl | later
    · exact old
    · refine ih order.tail ?_ ?_ asked later
      · omega
      · by_cases whole : q ≤ lot.quantity
        · have left : 0 ≤ seasoned day lots := sharesOf_nonneg
            fun other inside => order.tail.fair other (List.mem_filter.mp inside).1
          omega
        · omega

/-- What a sale leaves of a name's lots. -/
structure LeavesShares (day : Nat) (q : Int) (lots left : List Lot) : Prop where
  order : InOrder day left
  shares : sharesOf left = sharesOf lots - q
  seasoned_eq : q ≤ seasoned day lots → seasoned day left = seasoned day lots - q
  acquired : (left.map Lot.acquired).Sublist (lots.map Lot.acquired)

theorem releaseLots_leaves {symbol : Symbol} {lots left : List Lot} {tax : ℚ}
    (order : InOrder day lots) (taken : 0 ≤ q)
    (h : releaseLots symbol day q lots = .ok (tax, left)) : LeavesShares day q lots left := by
  induction lots generalizing q tax left with
  | nil =>
    unfold releaseLots at h
    split_ifs at h with none
    simp only [Except.ok.injEq, Prod.mk.injEq] at h
    obtain ⟨rfl, rfl⟩ := h
    subst none
    exact ⟨order, by simp, by simp, List.Sublist.refl _⟩
  | cons lot lots ih =>
    have fair := order.fair lot List.mem_cons_self
    have here := fair.positive
    unfold releaseLots at h
    by_cases none : q = 0
    · rw [if_pos none] at h
      simp only [Except.ok.injEq, Prod.mk.injEq] at h
      obtain ⟨rfl, rfl⟩ := h
      subst none
      exact ⟨order, by simp, by simp, List.Sublist.refl _⟩
    rw [if_neg none, if_neg here.ne'] at h
    dsimp only at h
    split at h
    · cases h
    rename_i due owed
    by_cases keeps : lot.quantity - min q lot.quantity ≠ 0
    · -- The lot keeps shares: it has met the whole quantity.
      rw [if_pos keeps] at h
      simp only [Except.ok.injEq, Prod.mk.injEq] at h
      obtain ⟨rfl, rfl⟩ := h
      have met : min q lot.quantity = q := by omega
      rw [met] at keeps ⊢
      have share : (q : ℚ) / lot.quantity ≤ 1 := by
        rw [div_le_one (by exact_mod_cast here)]
        exact_mod_cast (by omega : q ≤ lot.quantity)
      have less : ∀ income : ℚ, 0 ≤ income → 0 ≤ income - income * q / lot.quantity := by
        intro income nonneg
        rw [mul_div_assoc]
        have := mul_le_mul_of_nonneg_left share nonneg
        linarith
      refine ⟨⟨?_, order.sorted, ?_⟩, ?_, ?_, List.Sublist.refl _⟩
      · intro other member
        rcases List.mem_cons.mp member with rfl | later
        · exact ⟨by dsimp only; omega, less _ fair.old_nonneg, less _ fair.new_nonneg⟩
        · exact order.fair other (List.mem_cons_of_mem _ later)
      · intro other member
        rcases List.mem_cons.mp member with rfl | later
        · exact order.acquired_le lot List.mem_cons_self
        · exact order.acquired_le other (List.mem_cons_of_mem _ later)
      · simp only [sharesOf_cons]
        omega
      · intro covered
        have old := order.head_seasoned (by omega) covered
        simp only [seasoned_cons, if_pos old]
        omega
    · -- The lot is used up: the rest of the quantity comes from the lots behind it.
      rw [if_neg keeps] at h
      have whole : min q lot.quantity = lot.quantity := by omega
      split at h
      · cases h
      rename_i tax' left' behind
      simp only [Except.ok.injEq, Prod.mk.injEq] at h
      obtain ⟨rfl, rfl⟩ := h
      rw [whole] at behind
      have rest := ih order.tail (by omega) behind
      refine ⟨rest.order, ?_, fun covered => ?_, rest.acquired.cons _⟩
      · rw [rest.shares, sharesOf_cons]
        omega
      · have old := order.head_seasoned (by omega) covered
        rw [seasoned_cons, if_pos old] at covered ⊢
        rw [rest.seasoned_eq (by omega)]
        omega

theorem supplementDue_ok {acquired sold : Nat} (before : acquired < sold)
    (valid : (parseDay (some acquired)).isOk) (valid' : (parseDay (some sold)).isOk)
    (rule : DividendTaxRule) (income : ℚ) : ∃ due, supplementDue acquired sold rule income = .ok due := by
  have parses : ∀ {d}, (parseDay (some d)).isOk = true → parseDay (some d) = .ok d := by
    intro d ok
    unfold parseDay at ok ⊢
    dsimp only at ok ⊢
    split_ifs at ok ⊢ with named
    · rfl
    · cases ok
  unfold supplementDue
  split
  · exact ⟨0, rfl⟩
  · refine ⟨income * (tierRate acquired sold rule.rateBeyond rule.tiers - rule.withholdingRate), ?_⟩
    refine bind_eq_ok.mpr ⟨_, ?_, rfl⟩
    unfold dividendTaxRate
    refine bind_eq_ok.mpr ⟨acquired, parses valid, ?_⟩
    refine bind_eq_ok.mpr ⟨sold, parses valid', ?_⟩
    exact guard_eq_ok.mpr ⟨not_le.mpr before, rfl⟩

theorem dividendTaxDue_ok {acquired sold : Nat} (before : acquired < sold)
    (valid : (parseDay (some acquired)).isOk) (valid' : (parseDay (some sold)).isOk)
    (oldIncome newIncome : ℚ) : ∃ due, dividendTaxDue acquired sold oldIncome newIncome = .ok due := by
  obtain ⟨old, owed⟩ := supplementDue_ok before valid valid' oldRule oldIncome
  obtain ⟨new, owed'⟩ := supplementDue_ok before valid valid' newRule newIncome
  exact ⟨old + new, bind_eq_ok.mpr ⟨old, owed, bind_eq_ok.mpr ⟨new, owed', rfl⟩⟩⟩

theorem releaseLots_ok (symbol : Symbol) (order : InOrder day lots) (taken : 0 ≤ q)
    (covered : q ≤ seasoned day lots) (valid : ∀ lot ∈ lots, (parseDay (some lot.acquired)).isOk)
    (today : (parseDay (some day)).isOk) :
    ∃ tax left, releaseLots symbol day q lots = .ok (tax, left) := by
  induction lots generalizing q with
  | nil =>
    have none : q = 0 := by
      rw [show seasoned day [] = 0 from rfl] at covered
      omega
    exact ⟨0, [], by rw [releaseLots, if_pos none]⟩
  | cons lot lots ih =>
    have here := (order.fair lot List.mem_cons_self).positive
    unfold releaseLots
    by_cases none : q = 0
    · exact ⟨0, lot :: lots, by rw [if_pos none]⟩
    rw [if_neg none, if_neg here.ne']
    have old := order.head_seasoned (by omega) covered
    obtain ⟨due, owed⟩ := dividendTaxDue_ok old (valid lot List.mem_cons_self) today
      (lot.dividendIncomeOld * (min q lot.quantity : Int) / lot.quantity)
      (lot.dividendIncomeNew * (min q lot.quantity : Int) / lot.quantity)
    dsimp only
    rw [owed]
    dsimp only
    by_cases keeps : lot.quantity - min q lot.quantity ≠ 0
    · exact ⟨due, _, by rw [if_pos keeps]⟩
    · rw [seasoned_cons, if_pos old] at covered
      obtain ⟨tax, left, rest⟩ := ih (q := q - min q lot.quantity) order.tail (by omega) (by omega)
        fun other member => valid other (List.mem_cons_of_mem _ member)
      exact ⟨due + tax, left, by rw [if_neg keeps, rest]⟩

end AutoTrade
