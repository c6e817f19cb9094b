import AutoTrade.Environment.Proofs.Accounting
import AutoTrade.Environment.Proofs.LotShares
import AutoTrade.Paper.Engine

/-!
# Positions and lots

An account keeps each name twice, as a position and on a taxed account as the
lots of its buys. Every operation moves both, and both keep saying the same.
-/

namespace AutoTrade

open DailyBroker

theorem exDateShareMultiplier_pos {lastClose preClose cash : ℚ} {r : ℚ}
    (h : exDateShareMultiplier lastClose preClose cash = some (some r)) : 0 < r := by
  unfold exDateShareMultiplier at h
  dsimp only at h
  split_ifs at h with reset negative paid
  · cases h
  · obtain rfl := Option.some.inj (Option.some.inj h)
    exact not_le.mp negative
  · cases h

/-- The share leg of an ex-date, and the income it delivers. -/
structure ExDateShares (position : Position) (ex : ExDate) : Prop where
  income_nonneg : 0 ≤ ex.incomePerShare
  shares : (ex.ratio = none ∧ ex.quantityAfter = position.quantity) ∨
    ∃ r, ex.ratio = some r ∧ 0 < r ∧ ex.quantityAfter = exDateShares position.quantity r ∧
      0 < ex.quantityAfter

variable {position : Position} {ex : ExDate}

theorem exDateEffect_shares {symbol : Symbol} {day : Nat} {preClose cash income withheld : ℚ}
    {ratio : Option ℚ} {oldRule : Bool}
    (h : exDateEffect symbol day position preClose cash income ratio withheld oldRule =
      .ok (some ex)) (earned : 0 ≤ income) (positive : ∀ r ∈ ratio, 0 < r) :
    ExDateShares position ex := by
  unfold exDateEffect at h
  cases ratio with
  | none =>
    dsimp only at h
    by_cases flat : income = 0
    · rw [if_pos flat] at h
      cases h
    rw [if_neg flat] at h
    obtain rfl := Option.some.inj (Except.ok.inj h)
    exact ⟨earned, .inl ⟨rfl, rfl⟩⟩
  | some r =>
    dsimp only at h
    split_ifs at h with whole
    obtain rfl := Option.some.inj (Except.ok.inj h)
    exact ⟨earned, .inr ⟨r, rfl, positive r rfl, rfl, not_le.mp whole⟩⟩

theorem exDateOf_shares {tax : Bool} {symbol : Symbol} {day : Nat} {bar : Bar}
    {distribution : Distribution}
    (h : exDateOf tax symbol day position bar distribution = .ok (some ex)) :
    ExDateShares position ex := by
  unfold exDateOf at h
  dsimp only at h
  split at h
  · cases h
  rename_i preClose _
  split_ifs at h with noBonus cash bonus
  split at h
  · cases h
  rename_i ratio multiplied
  split at h
  · cases h
  refine exDateEffect_shares h ?_ fun r here => ?_
  · have par : 0 ≤ distribution.bonusPerShare.getD 0 * bonusSharePar := by
      rw [bonusSharePar, mul_one]
      exact not_lt.mp bonus
    have paid := not_lt.mp cash
    split_ifs <;> linarith
  · rw [Option.mem_def] at here
    exact exDateShareMultiplier_pos (here ▸ multiplied)

/-- A position holds shares, and offers some of them. -/
structure Position.Whole (p : Position) : Prop where
  quantity_pos : 0 < p.quantity
  available_nonneg : 0 ≤ p.availableQuantity
  available_le : p.availableQuantity ≤ p.quantity

theorem Position.Whole.released {p : Position} (whole : p.Whole) : (released p).Whole :=
  ⟨whole.quantity_pos, whole.quantity_pos.le, le_refl _⟩

theorem Position.Whole.exDate {p : Position} (whole : p.Whole) (shares : ExDateShares p ex) :
    (ex.position p).Whole := by
  have available := whole.available_nonneg
  rcases shares.shares with ⟨none, same⟩ | ⟨r, some, -, -, positive⟩
  · refine ⟨?_, ?_, ?_⟩
    · simpa [ExDate.position, same] using whole.quantity_pos
    · simpa [ExDate.position, none] using available
    · simpa [ExDate.position, none, same] using whole.available_le
  · refine ⟨positive, ?_, ?_⟩
    · simp only [ExDate.position, some, Option.isSome_some, if_true]
      omega
    · simp only [ExDate.position, some, Option.isSome_some, if_true]
      omega

variable {quantity : Int}

theorem Position.Whole.bought {existing : Option Position} (whole : ∀ p ∈ existing, p.Whole)
    (positive : 0 < quantity) (cost p : ℚ) :
    (boughtPosition existing quantity cost p).Whole := by
  cases existing with
  | none => exact ⟨positive, le_refl _, positive.le⟩
  | some held =>
    obtain ⟨some, available, least⟩ := whole held rfl
    exact ⟨by simp only [boughtPosition]; omega, available, by simp only [boughtPosition]; omega⟩

theorem Position.Whole.sold (whole : position.Whole)
    (covered : quantity ≤ position.availableQuantity) (p : ℚ) :
    ∀ q ∈ soldPosition position quantity p, q.Whole := by
  obtain ⟨-, -, least⟩ := whole
  intro q here
  unfold soldPosition at here
  split_ifs at here with gone
  · cases here
  · obtain rfl := Option.some.inj here
    exact ⟨by simp only; omega, by simp only; omega, by simp only; omega⟩

/-- The position of a name and its lots say the same on `day`. -/
inductive NameKept (day : Nat) : Option Position → Option (List Lot) → Prop
  | absent : NameKept day none none
  | held {p : Position} {lots : List Lot} (order : InOrder day lots)
      (shares : sharesOf lots = p.quantity) : NameKept day (some p) (some lots)

theorem InOrder.mono {day day' : Nat} {lots : List Lot} (order : InOrder day lots)
    (later : day ≤ day') : InOrder day' lots :=
  ⟨order.fair, order.sorted, fun lot member => (order.acquired_le lot member).trans later⟩

theorem NameKept.mono {day day' : Nat} {p : Option Position} {lots : Option (List Lot)}
    (kept : NameKept day p lots) (later : day ≤ day') : NameKept day' p lots := by
  cases kept with
  | absent => exact .absent
  | held order shares => exact .held (order.mono later) shares

theorem InOrder.settled {day : Nat} {p : Position} {lots : List Lot} {ex : ExDate}
    (order : InOrder day lots) (shares : sharesOf lots = p.quantity) (exDate : ExDateShares p ex) :
    InOrder day (settleLots ex.incomePerShare ex.ratio ex.oldRule 0 0 lots) ∧
      sharesOf (settleLots ex.incomePerShare ex.ratio ex.oldRule 0 0 lots) = ex.quantityAfter := by
  have positive : ∀ lot ∈ lots, 0 < lot.quantity := fun lot member => (order.fair lot member).positive
  obtain ⟨-, acquired⟩ := settleLots_spec ex.incomePerShare ex.ratio ex.oldRule 0 0 lots
  refine ⟨⟨settleLots_fair exDate.income_nonneg _ _ 0 0 order.fair, order.sorted.sublist acquired,
    fun lot member => ?_⟩, ?_⟩
  · obtain ⟨old, inside, same⟩ := List.mem_map.mp (acquired.mem (List.mem_map_of_mem member))
    exact same ▸ order.acquired_le old inside
  · rcases exDate.shares with ⟨none, after⟩ | ⟨r, some, growing, after, -⟩
    · rw [none, after, sharesOf_settleLots_none _ _ _ _ positive, shares]
    · have total := sharesOf_settleLots_some growing ex.incomePerShare ex.oldRule 0 positive
      rw [exDateShares_zero, zero_add, sub_zero, shares] at total
      rw [some, after, total]

theorem InOrder.bought {day : Nat} {lots : List Lot} (order : InOrder day lots)
    (positive : 0 < quantity) : InOrder day (lots ++ [⟨quantity, day, 0, 0⟩]) where
  fair := by
    intro lot member
    rcases List.mem_append.mp member with old | new
    · exact order.fair lot old
    · rw [List.mem_singleton.mp new]
      exact ⟨positive, le_refl _, le_refl _⟩
  sorted := by
    rw [List.map_append]
    refine List.pairwise_append.mpr ⟨order.sorted, List.pairwise_singleton _ _, ?_⟩
    intro acquired old today new
    obtain ⟨lot, member, rfl⟩ := List.mem_map.mp old
    obtain rfl := List.mem_singleton.mp new
    exact order.acquired_le lot member
  acquired_le := by
    intro lot member
    rcases List.mem_append.mp member with old | new
    · exact order.acquired_le lot old
    · rw [List.mem_singleton.mp new]

/-- Every name of an account is kept, as a position and on a taxed account as lots
of `day` or before. -/
structure HoldingsKept (day : Nat) (b : DailyBroker) : Prop where
  positions : ∀ symbol p, b.positions.get? symbol = some p → p.Whole
  untaxed : b.profile.dividendTax = false → b.lots = Dict.empty
  ledger : b.profile.dividendTax = true → ∀ symbol,
    NameKept day (b.positions.get? symbol) (b.lots.get? symbol)

namespace HoldingsKept

variable {day : Nat} {b b' : DailyBroker}

theorem new (profile : BrokerProfile) : HoldingsKept day (DailyBroker.new profile) :=
  ⟨nofun, fun _ => rfl, fun _ _ => NameKept.absent⟩

theorem mono {day' : Nat} (kept : HoldingsKept day b) (later : day ≤ day') : HoldingsKept day' b :=
  ⟨kept.positions, kept.untaxed, fun taxed symbol => (kept.ledger taxed symbol).mono later⟩

variable {symbol : Symbol}

theorem lots_of_position (kept : HoldingsKept day b) (taxed : b.profile.dividendTax = true)
    {p : Position} (found : b.positions.get? symbol = some p) :
    ∃ lots, b.lots.get? symbol = some lots ∧ InOrder day lots ∧ sharesOf lots = p.quantity := by
  have name := kept.ledger taxed symbol
  rw [found] at name
  cases recorded : b.lots.get? symbol with
  | none =>
    rw [recorded] at name
    cases name
  | some lots =>
    rw [recorded] at name
    cases name with
    | held order shares => exact ⟨lots, rfl, order, shares⟩

theorem lots_of_none (kept : HoldingsKept day b) (taxed : b.profile.dividendTax = true)
    (none : b.positions.get? symbol = none) : b.lots.get? symbol = .none := by
  have name := kept.ledger taxed symbol
  rw [none] at name
  cases recorded : b.lots.get? symbol with
  | none => rfl
  | some lots =>
    rw [recorded] at name
    cases name

theorem position_of_none (kept : HoldingsKept day b) (taxed : b.profile.dividendTax = true)
    (none : b.lots.get? symbol = none) : b.positions.get? symbol = .none := by
  have name := kept.ledger taxed symbol
  rw [none] at name
  cases found : b.positions.get? symbol with
  | none => rfl
  | some p =>
    rw [found] at name
    cases name

theorem set (kept : HoldingsKept day b) {symbol : Symbol} {p : Position} (whole : p.Whole)
    (profile : b'.profile = b.profile) (positions : b'.positions = b.positions.set symbol p)
    (untaxed : b.profile.dividendTax = false → b'.lots = b.lots)
    (ledger : b.profile.dividendTax = true →
      ∃ lots, InOrder day lots ∧ sharesOf lots = p.quantity ∧
        ∀ other, b'.lots.get? other = if symbol = other then some lots else b.lots.get? other) :
    HoldingsKept day b' where
  positions := by
    intro other q found
    rw [positions, Dict.get?_set] at found
    split_ifs at found with here
    · exact Option.some.inj found ▸ whole
    · exact kept.positions other q found
  untaxed := fun plain => (untaxed (profile ▸ plain)).trans (kept.untaxed (profile ▸ plain))
  ledger := by
    intro taxed other
    rw [profile] at taxed
    obtain ⟨lots, order, shares, rows⟩ := ledger taxed
    rw [positions, Dict.get?_set, rows]
    split_ifs with here
    · exact .held order shares
    · exact kept.ledger taxed other

theorem openPosition {symbol : Symbol} {position : Position} {opened : Nat}
    {bars : Symbol → Option Bar} {events : Symbol → Distribution} (kept : HoldingsKept day b)
    (found : b.positions.get? symbol = some position)
    (h : openPosition opened bars events b (symbol, position) = .ok b') : HoldingsKept day b' := by
  have whole := (kept.positions symbol position found).released
  rcases openPosition_cases h with rfl | ⟨bar, ex, lots, -, effect, settled, rfl⟩
  · refine kept.set whole rfl rfl (fun _ => rfl) fun taxed => ?_
    obtain ⟨lots, recorded, order, shares⟩ := kept.lots_of_position taxed found
    refine ⟨lots, order, shares, fun other => ?_⟩
    split_ifs with here
    · exact here ▸ recorded
    · rfl
  · have shares := exDateOf_shares effect
    unfold exDateLots at settled
    refine kept.set (whole.exDate shares) rfl rfl (fun plain => ?_) fun taxed => ?_
    · rw [if_neg (by simp [plain])] at settled
      exact (Except.ok.inj settled).symm
    · rw [if_pos taxed] at settled
      obtain ⟨held, recorded, order, same⟩ := kept.lots_of_position taxed found
      rw [recorded] at settled
      obtain rfl := Except.ok.inj settled
      obtain ⟨order', same'⟩ := order.settled (p := released position) same shares
      exact ⟨_, order', same', fun other => Dict.get?_set _ _ _ _⟩

theorem openDay {opened : Nat} {bars : Symbol → Option Bar} {events : Symbol → Distribution}
    (kept : HoldingsKept day b) (h : b.openDay opened bars events = .ok b') : HoldingsKept day b' :=
  openDay_invariant (P := HoldingsKept day)
    (fun _ kept => ⟨kept.positions, kept.untaxed, kept.ledger⟩)
    (fun _ _ _ _ kept found opens => kept.openPosition found opens) h kept

theorem buy {order : StrategyOrder} {p cost : ℚ} (kept : HoldingsKept day b)
    (h : b.buy order day p cost = some b') : HoldingsKept day b' := by
  obtain ⟨-, rfl⟩ := buy_eq_some h
  have whole : (boughtPosition (b.positions.get? order.symbol) order.quantity cost p).Whole :=
    .bought (fun held found => kept.positions order.symbol held found) order.quantity_pos cost p
  refine kept.set whole rfl rfl (fun plain => by simp [plain]) fun taxed => ?_
  refine ⟨(b.lots.get? order.symbol).getD [] ++ [⟨order.quantity, day, 0, 0⟩], ?_, ?_, ?_⟩
  · cases found : b.positions.get? order.symbol with
    | none =>
      rw [kept.lots_of_none taxed found]
      exact InOrder.bought ⟨by simp, List.Pairwise.nil, by simp⟩ order.quantity_pos
    | some held =>
      obtain ⟨lots, recorded, inOrder, -⟩ := kept.lots_of_position taxed found
      rw [recorded]
      exact inOrder.bought order.quantity_pos
  · cases found : b.positions.get? order.symbol with
    | none =>
      rw [kept.lots_of_none taxed found]
      simp [boughtPosition]
    | some held =>
      obtain ⟨lots, recorded, -, shares⟩ := kept.lots_of_position taxed found
      rw [recorded]
      simp [boughtPosition, shares]
  · intro other
    simp only [taxed, if_true]
    exact Dict.get?_set _ _ _ _

end HoldingsKept

namespace DailyBroker

theorem takeLots_eq_ok {b : DailyBroker} {symbol : Symbol} {day : Nat} {q : Int} {tax : ℚ}
    {lots : Dict Symbol (List Lot)} (h : b.takeLots symbol day q = .ok (tax, lots)) :
    ∃ held left, b.lots.get? symbol = some held ∧ releaseLots symbol day q held = .ok (tax, left) ∧
      ∀ other, lots.get? other = if symbol = other then (if left = [] then none else some left)
        else b.lots.get? other := by
  unfold takeLots at h
  split at h
  · cases h
  rename_i held found
  split at h
  · cases h
  · rename_i tax' released
    obtain ⟨rfl, rfl⟩ := Prod.mk.inj (Except.ok.inj h)
    exact ⟨held, [], found, released, fun other => Dict.get?_erase _ _ _⟩
  · rename_i tax' left remain released
    obtain ⟨rfl, rfl⟩ := Prod.mk.inj (Except.ok.inj h)
    refine ⟨held, left, found, released, fun other => ?_⟩
    rw [Dict.get?_set, if_neg remain]

end DailyBroker

namespace HoldingsKept

variable {day : Nat} {b b' : DailyBroker}

theorem erase (kept : HoldingsKept day b) {symbol : Symbol} (profile : b'.profile = b.profile)
    (positions : b'.positions = b.positions.erase symbol)
    (untaxed : b.profile.dividendTax = false → b'.lots = b.lots)
    (ledger : b.profile.dividendTax = true →
      ∀ other, b'.lots.get? other = if symbol = other then none else b.lots.get? other) :
    HoldingsKept day b' where
  positions := by
    intro other q found
    rw [positions, Dict.get?_erase] at found
    split_ifs at found with here
    exact kept.positions other q found
  untaxed := fun plain => (untaxed (profile ▸ plain)).trans (kept.untaxed (profile ▸ plain))
  ledger := by
    intro taxed other
    rw [profile] at taxed
    rw [positions, Dict.get?_erase, ledger taxed]
    split_ifs with here
    · exact .absent
    · exact kept.ledger taxed other

theorem sell {order : StrategyOrder} {p notional commission stampDuty tax realized : ℚ}
    (kept : HoldingsKept day b)
    (covered : ∀ p, b.positions.get? order.symbol = some p → order.quantity ≤ p.availableQuantity)
    (h : b.sell order day p notional commission stampDuty = .ok (b', tax, realized)) :
    HoldingsKept day b' := by
  obtain ⟨position, lots, found, released, -, rfl⟩ := sell_eq_ok h
  have whole := kept.positions order.symbol position found
  have enough := covered position found
  have untaxed : b.profile.dividendTax = false → lots = b.lots :=
    fun plain => (saleLots_untaxed plain released).2
  -- The lots of the name after the sale, on a taxed account.
  have taken : b.profile.dividendTax = true → ∃ left, InOrder day left ∧
      sharesOf left = position.quantity - order.quantity ∧
      ∀ other, lots.get? other = if order.symbol = other then
        (if left = [] then none else some left) else b.lots.get? other := by
    intro taxed
    rw [saleLots, if_pos taxed] at released
    obtain ⟨held, left, recorded, fifo, rows⟩ := takeLots_eq_ok released
    obtain ⟨held', recorded', inOrder, shares⟩ := kept.lots_of_position taxed found
    obtain rfl : held = held' := Option.some.inj (recorded.symm.trans recorded')
    have leaves := releaseLots_leaves inOrder order.quantity_pos.le fifo
    exact ⟨left, leaves.order, shares ▸ leaves.shares, rows⟩
  by_cases gone : position.quantity - order.quantity = 0
  · have sold : soldPosition position order.quantity p = none := if_pos gone
    rw [sold]
    refine kept.erase rfl rfl untaxed fun taxed other => ?_
    obtain ⟨left, inOrder, shares, rows⟩ := taken taxed
    have empty : left = [] := eq_nil_of_sharesOf inOrder.fair (shares.trans gone)
    exact (rows other).trans (by rw [if_pos empty])
  · have sold : soldPosition position order.quantity p = some { position with
        quantity := position.quantity - order.quantity
        availableQuantity := position.availableQuantity - order.quantity
        lastPrice := p } := if_neg gone
    have left := whole.sold enough p _ sold
    rw [sold]
    refine kept.set left rfl rfl untaxed fun taxed => ?_
    obtain ⟨left, inOrder, shares, rows⟩ := taken taxed
    refine ⟨left, inOrder, shares, fun other => ?_⟩
    have some : left ≠ [] := by
      rintro rfl
      exact gone shares.symm
    exact (rows other).trans (by rw [if_neg some])

theorem execute {order : StrategyOrder} {bar : Option Bar} {matchedAt : Instant}
    {rawPrice : Option ℚ} {e : Execution} (kept : HoldingsKept day b)
    (today : ∀ current, b.currentDay = some current → current = day)
    (h : b.execute order bar matchedAt rawPrice = .ok (b', e)) : HoldingsKept day b' := by
  rcases execute_cases h with ⟨reason, left⟩ | ⟨dayBar, base, p, accepted, -, -, -, filled⟩
  · obtain ⟨rfl, -⟩ := Prod.mk.inj left
    exact kept
  · obtain ⟨current, commission, stampDuty, opened, -, cases⟩ := fillAt_cases filled
    obtain rfl := today current opened
    rcases cases with ⟨-, -, left⟩ | ⟨bought, -, made, left⟩ | ⟨sold, tax, realized, sale, made, left⟩
    · obtain ⟨rfl, -⟩ := Prod.mk.inj left
      exact kept
    · obtain ⟨rfl, -⟩ := Prod.mk.inj left
      exact kept.buy made
    · obtain ⟨rfl, -⟩ := Prod.mk.inj left
      exact kept.sell (fun _ found => rejectReason_sell accepted sale found) made

theorem markBy (kept : HoldingsKept day b) (field : Bar → Option ℚ) (bars : Symbol → Option Bar) :
    HoldingsKept day (b.markBy field bars) where
  positions := by
    intro symbol p found
    simp only [DailyBroker.markBy, Dict.get?_mapValues, Option.map_eq_some_iff] at found
    obtain ⟨q, held, rfl⟩ := found
    obtain ⟨some, available, least⟩ := kept.positions symbol q held
    unfold markPositionBy
    split
    · exact ⟨some, available, least⟩
    · split <;> exact ⟨some, available, least⟩
  untaxed := kept.untaxed
  ledger := by
    intro taxed symbol
    have name := kept.ledger taxed symbol
    simp only [DailyBroker.markBy, Dict.get?_mapValues]
    cases found : b.positions.get? symbol with
    | none =>
      rw [found] at name
      exact name
    | some p =>
      obtain ⟨lots, recorded, order, shares⟩ := kept.lots_of_position taxed found
      rw [recorded]
      refine .held order (shares.trans ?_)
      unfold markPositionBy
      split
      · rfl
      · split <;> rfl

theorem congr (kept : HoldingsKept day b) (profile : b'.profile = b.profile)
    (positions : ∀ symbol, b'.positions.get? symbol = b.positions.get? symbol)
    (lots : ∀ symbol, b'.lots.get? symbol = b.lots.get? symbol) : HoldingsKept day b' where
  positions := fun symbol p found => kept.positions symbol p (positions symbol ▸ found)
  untaxed := by
    intro plain
    have none := kept.untaxed (profile ▸ plain)
    rw [none] at lots
    exact Dict.ext ((Dict.equiv_of_get? lots).eq_nil)
  ledger := by
    intro taxed symbol
    rw [positions, lots]
    exact kept.ledger (profile ▸ taxed) symbol

end HoldingsKept

namespace DailyBroker

theorem lotRecords_get? (b : DailyBroker) (symbol : Symbol) :
    b.lotRecords.get? symbol = b.lots.get? symbol := sortedDict_get? b.lots symbol

theorem expectedLots_get? (b : DailyBroker) (symbol : Symbol) :
    b.expectedLots.get? symbol =
      if b.profile.dividendTax then (b.positions.get? symbol).map Position.quantity else none := by
  unfold expectedLots
  split
  · rw [Dict.get?_mapValues]
  · rfl

/-- The shares each name of a ledger adds up to. -/
def ledgerShares (records : Dict Symbol (List Lot)) : Dict Symbol Int :=
  records.mapValues fun _ lots => sharesOf lots

/-- The rows a ledger may hold. -/
def ledgerFair (records : Dict Symbol (List Lot)) : Prop :=
  ∀ lots ∈ records.values, ∀ lot ∈ lots, lot.Fair

theorem restoreLots_eq_ok {b b' : DailyBroker} {records : Dict Symbol (List Lot)} :
    b.restoreLots records = .ok b' ↔
      b' = { b with lots := records } ∧ ledgerFair records ∧
        (ledgerShares records).Equiv b.expectedLots := by
  unfold restoreLots
  dsimp only
  constructor
  · intro h
    split_ifs at h with income mismatch
    refine ⟨(Except.ok.inj h).symm, ?_, ?_⟩
    · intro lots member lot inside
      have row : lot ∈ records.values.flatten := List.mem_flatten.mpr ⟨lots, member, inside⟩
      simp only [List.any_eq_true, not_exists, not_and, Bool.or_eq_true, decide_eq_true_eq,
        not_or, not_lt] at income
      push Not at mismatch
      have some : ¬ lot.quantity ≤ 0 := by
        intro none
        exact mismatch.2 (List.any_eq_true.mpr ⟨lot, row, decide_eq_true none⟩)
      exact ⟨not_le.mp some, (income lot row).2, (income lot row).1⟩
    · push Not at mismatch
      exact mismatch.1
  · rintro ⟨rfl, fair, same⟩
    rw [if_neg, if_neg]
    · rintro (differs | empty)
      · exact differs same
      · obtain ⟨lot, row, none⟩ := List.any_eq_true.mp empty
        obtain ⟨lots, member, inside⟩ := List.mem_flatten.mp row
        exact absurd (of_decide_eq_true none) (not_le.mpr (fair lots member lot inside).positive)
    · intro negative
      obtain ⟨lot, row, sign⟩ := List.any_eq_true.mp negative
      obtain ⟨lots, member, inside⟩ := List.mem_flatten.mp row
      have lotFair := fair lots member lot inside
      simp only [Bool.or_eq_true, decide_eq_true_eq] at sign
      rcases sign with new | old
      · exact absurd new (not_lt.mpr lotFair.new_nonneg)
      · exact absurd old (not_lt.mpr lotFair.old_nonneg)

end DailyBroker

namespace HoldingsKept

variable {day : Nat} {b b' : DailyBroker}

theorem ledger_restores (kept : HoldingsKept day b) :
    ledgerFair b.lots ∧ (ledgerShares b.lots).Equiv b.expectedLots := by
  by_cases taxed : b.profile.dividendTax = true
  · constructor
    · intro lots member lot inside
      obtain ⟨symbol, found⟩ := Dict.mem_values_iff.mp member
      have name := kept.ledger taxed symbol
      rw [found] at name
      cases held : b.positions.get? symbol with
      | none =>
        rw [held] at name
        cases name
      | some p =>
        rw [held] at name
        cases name with
        | held order shares => exact order.fair lot inside
    · refine Dict.equiv_of_get? fun symbol => ?_
      rw [expectedLots_get?, if_pos taxed, ledgerShares, Dict.get?_mapValues]
      cases found : b.positions.get? symbol with
      | none => rw [kept.lots_of_none taxed found]; rfl
      | some p =>
        obtain ⟨lots, recorded, -, shares⟩ := kept.lots_of_position taxed found
        rw [recorded]
        exact congrArg some shares
  · have none := kept.untaxed (by simpa using taxed)
    constructor
    · rw [none]
      exact fun lots member => nomatch member
    · refine Dict.equiv_of_get? fun symbol => ?_
      rw [expectedLots_get?, if_neg taxed, none]
      rfl

theorem restores (kept : HoldingsKept day b) :
    ∃ b', b.restoreLots b.lotRecords = .ok b' ∧ b' = { b with lots := b'.lots } ∧
      b'.lots.Equiv b.lots := by
  obtain ⟨fair, same⟩ := kept.ledger_restores
  have exported : b.lotRecords.Equiv b.lots := sortedDict_equiv b.lots
  refine ⟨{ b with lots := b.lotRecords }, restoreLots_eq_ok.mpr ⟨rfl, ?_, ?_⟩, rfl, exported⟩
  · intro lots member
    obtain ⟨symbol, found⟩ := Dict.mem_values_iff.mp member
    exact fair lots (Dict.mem_values_iff.mpr ⟨symbol, lotRecords_get? b symbol ▸ found⟩)
  · refine Dict.Equiv.trans (Dict.equiv_of_get? fun symbol => ?_) same
    rw [ledgerShares, ledgerShares, Dict.get?_mapValues, Dict.get?_mapValues, lotRecords_get?]

theorem restoreLots {c : DailyBroker} {exported : Nat} (kept : HoldingsKept day b)
    (source : HoldingsKept exported c) (profile : c.profile = b.profile) (since : exported ≤ day)
    (h : b.restoreLots c.lotRecords = .ok b') : HoldingsKept day b' := by
  obtain ⟨rfl, -, same⟩ := restoreLots_eq_ok.mp h
  have shares (symbol : Symbol) : (c.lots.get? symbol).map sharesOf =
      if b.profile.dividendTax then (b.positions.get? symbol).map Position.quantity else none := by
    rw [← expectedLots_get?, ← same.get? symbol, ledgerShares, Dict.get?_mapValues, lotRecords_get?]
  refine ⟨kept.positions, fun plain => ?_, fun taxed symbol => ?_⟩
  · have none := source.untaxed (profile ▸ plain)
    have empty : c.lotRecords.Equiv Dict.empty := none ▸ sortedDict_equiv c.lots
    exact Dict.ext empty.eq_nil
  · have here := shares symbol
    rw [if_pos taxed] at here
    show NameKept day (b.positions.get? symbol) (c.lotRecords.get? symbol)
    rw [lotRecords_get?]
    have name := source.ledger (profile ▸ taxed) symbol
    cases recorded : c.lots.get? symbol with
    | none =>
      rw [recorded] at here
      rw [Option.map_eq_none_iff.mp here.symm]
      exact .absent
    | some lots =>
      rw [recorded] at here name
      obtain ⟨p, found, quantity⟩ := Option.map_eq_some_iff.mp here.symm
      rw [found]
      cases held : c.positions.get? symbol with
      | none =>
        rw [held] at name
        cases name
      | some q =>
        rw [held] at name
        cases name with
        | held order _ => exact .held (order.mono since) quantity.symm

end HoldingsKept

/-- The accounts a profile's broker reaches: days in their order, orders, marks,
ledgers that an account of the profile exported, and accounts read back from the
record they were kept in. -/
inductive Reachable (profile : BrokerProfile) : DailyBroker → Prop
  | new : Reachable profile (DailyBroker.new profile)
  | openDay {b b' : DailyBroker} {day : Nat} {bars : Symbol → Option Bar}
      {events : Symbol → Distribution} (reached : Reachable profile b)
      (later : ∀ last, b.currentDay = some last → last ≤ day)
      (opens : b.openDay day bars events = .ok b') : Reachable profile b'
  | execute {b b' : DailyBroker} {order : StrategyOrder} {bar : Option Bar} {matchedAt : Instant}
      {rawPrice : Option ℚ} {e : Execution} (reached : Reachable profile b)
      (executes : b.execute order bar matchedAt rawPrice = .ok (b', e)) : Reachable profile b'
  | mark {b : DailyBroker} (field : Bar → Option ℚ) (bars : Symbol → Option Bar)
      (reached : Reachable profile b) : Reachable profile (b.markBy field bars)
  | restoreLots {b b' c : DailyBroker} (reached : Reachable profile b)
      (exported : Reachable profile c)
      (since : ∀ last, c.currentDay = some last → ∃ today, b.currentDay = some today ∧ last ≤ today)
      (restores : b.restoreLots c.lotRecords = .ok b') : Reachable profile b'
  | restore {b b' : DailyBroker} (reached : Reachable profile b)
      (restores : restoreBroker profile (some (accountRecord b)) = .ok b') : Reachable profile b'

/-- The day an account is on, the first of all before it opens one. -/
def DailyBroker.today (b : DailyBroker) : Nat := b.currentDay.getD 0

namespace Reachable

variable {profile : BrokerProfile}

theorem restoreBroker_eq_ok {account : AccountRecord} {b : DailyBroker}
    (h : restoreBroker profile (some account) = .ok b) :
    b = { DailyBroker.new profile with cash := account.cash, positions := account.positions
                                       currentDay := account.currentDay, lots := account.lots } := by
  unfold restoreBroker at h
  dsimp only at h
  split at h
  · cases h
  · rename_i restored accepted
    obtain rfl := Except.ok.inj h
    exact (restoreLots_eq_ok.mp accepted).1

theorem kept {b : DailyBroker} (reached : Reachable profile b) :
    b.profile = profile ∧ HoldingsKept b.today b := by
  induction reached with
  | new => exact ⟨rfl, .new profile⟩
  | @openDay b b' day bars events _ later opens ih =>
    obtain ⟨same, today, -⟩ := openDay_spec opens
    have before : b.today ≤ day := by
      unfold DailyBroker.today
      cases current : b.currentDay with
      | none => exact Nat.zero_le day
      | some last => exact later last current
    refine ⟨same.trans ih.1, ?_⟩
    rw [show b'.today = day by rw [DailyBroker.today, today]; rfl]
    exact (ih.2.mono before).openDay opens
  | @execute b b' _ _ _ _ _ _ executes ih =>
    have frame := execute_frame executes
    refine ⟨frame.profile_eq.trans ih.1, ?_⟩
    rw [show b'.today = b.today by rw [DailyBroker.today, frame.currentDay_eq]; rfl]
    refine ih.2.execute (fun current today => ?_) executes
    rw [DailyBroker.today, today]
    rfl
  | mark field bars _ ih => exact ⟨ih.1, ih.2.markBy field bars⟩
  | @restoreLots b b' c _ _ since restores ih source =>
    have before : c.today ≤ b.today := by
      unfold DailyBroker.today
      cases exported : c.currentDay with
      | none => exact Nat.zero_le _
      | some last =>
        obtain ⟨today, current, later⟩ := since last exported
        rw [current]
        exact later
    have kept := ih.2.restoreLots source.2 (source.1.trans ih.1.symm) before restores
    obtain ⟨rfl, -, -⟩ := restoreLots_eq_ok.mp restores
    exact ⟨ih.1, kept⟩
  | @restore b b' _ restores ih =>
    obtain rfl := restoreBroker_eq_ok restores
    refine ⟨rfl, ih.2.congr ih.1.symm (sortedDict_get? b.positions) (lotRecords_get? b)⟩

end Reachable

/-- In every account the broker reaches, positions hold shares and offer some of them,
a taxed account has lots for exactly the names it holds, that add up to them in the
order they were acquired, an untaxed one has none, and the ledger it exports is
restored as it is. -/
theorem holdings_kept {profile : BrokerProfile} {b : DailyBroker} (reached : Reachable profile b) :
    (∀ symbol p, b.positions.get? symbol = some p →
      0 < p.quantity ∧ 0 ≤ p.availableQuantity ∧ p.availableQuantity ≤ p.quantity) ∧
    (profile.dividendTax = true → (∀ symbol, symbol ∈ b.lots.keys ↔ symbol ∈ b.positions.keys) ∧
      ∀ symbol p lots, b.positions.get? symbol = some p → b.lots.get? symbol = some lots →
        (∀ lot ∈ lots, 0 < lot.quantity) ∧ (lots.map Lot.quantity).sum = p.quantity ∧
          (lots.map Lot.acquired).Pairwise (· ≤ ·)) ∧
    (profile.dividendTax = false → b.lots = Dict.empty) ∧
    ∃ b', b.restoreLots b.lotRecords = .ok b' ∧ b' = { b with lots := b'.lots } ∧
      b'.lots.Equiv b.lots := by
  obtain ⟨rfl, kept⟩ := reached.kept
  refine ⟨fun symbol p found => ?_, fun taxed => ⟨fun symbol => ?_, fun symbol p lots held recorded => ?_⟩,
    kept.untaxed, kept.restores⟩
  · obtain ⟨some, available, least⟩ := kept.positions symbol p found
    exact ⟨some, available, least⟩
  · rw [Dict.mem_keys_iff, Dict.mem_keys_iff]
    constructor
    · rintro ⟨lots, recorded⟩
      by_contra none
      push Not at none
      have absent : b.positions.get? symbol = .none := Option.eq_none_iff_forall_ne_some.mpr none
      exact nomatch recorded.symm.trans (kept.lots_of_none taxed absent)
    · rintro ⟨p, found⟩
      obtain ⟨lots, recorded, -⟩ := kept.lots_of_position taxed found
      exact ⟨lots, recorded⟩
  · obtain ⟨lots', recorded', order, shares⟩ := kept.lots_of_position taxed held
    obtain rfl : lots = lots' := Option.some.inj (recorded.symm.trans recorded')
    exact ⟨fun lot member => (order.fair lot member).positive, shares, order.sorted⟩

/-- The day an operation opens. -/
def BrokerOp.day? : BrokerOp → Option Nat
  | .openDay day _ _ => some day
  | _ => none

/-- The days of a run are opened in their order. -/
def DaysInOrder (ops : List BrokerOp) : Prop := (ops.filterMap BrokerOp.day?).Pairwise (· ≤ ·)

instance (ops : List BrokerOp) : Decidable (DaysInOrder ops) :=
  inferInstanceAs (Decidable (List.Pairwise _ _))

theorem BrokerRun.reachable {profile : BrokerProfile} {ops : List BrokerOp} {s : BrokerRun}
    (ordered : DaysInOrder ops) (run : BrokerRun.ofOps profile ops = .ok s) :
    Reachable profile s.broker ∧
      ∀ last, s.broker.currentDay = some last → last ∈ ops.filterMap BrokerOp.day? := by
  refine foldlM_along (P := fun done s => Reachable profile s.broker ∧
      ∀ last, s.broker.currentDay = some last → last ∈ done.filterMap BrokerOp.day?) ?_ run
    ⟨.new, nofun⟩
  intro done op rest s s' whole step before
  obtain ⟨reached, opened⟩ := before
  cases op with
  | openDay day bars events =>
    obtain ⟨b, opens, rfl⟩ := except_map_eq_ok.mp step
    obtain ⟨-, today, -⟩ := openDay_spec opens
    refine ⟨.openDay reached (fun last current => ?_) opens, fun last current => ?_⟩
    · unfold DaysInOrder at ordered
      rw [whole, List.filterMap_append, List.filterMap_cons_some (by rfl)] at ordered
      exact (List.pairwise_append.mp ordered).2.2 last (opened last current) day List.mem_cons_self
    · obtain rfl : day = last := Option.some.inj (today.symm.trans current)
      rw [List.filterMap_append]
      exact List.mem_append_right _ List.mem_cons_self
  | mark field bars =>
    obtain rfl := Except.ok.inj step
    refine ⟨.mark field bars reached, fun last current => ?_⟩
    rw [List.filterMap_append]
    exact List.mem_append_left _ (opened last current)
  | execute order bar matchedAt rawPrice =>
    obtain ⟨⟨b, e⟩, executes, rfl⟩ := except_map_eq_ok.mp step
    refine ⟨.execute reached executes, fun last current => ?_⟩
    rw [List.filterMap_append]
    exact List.mem_append_left _ (opened last ((execute_frame executes).currentDay_eq ▸ current))

/-- A bar that opens where the exchange set its price. -/
def levelBar (preClose : ℚ) : Bar :=
  { opening := some preClose, close := some preClose, preClose := some preClose,
    upLimit := some (11 * preClose / 10), downLimit := some (9 * preClose / 10) }

/-- An order met at that price at the opening of `day`. -/
def levelTrade (action : OrderAction) (quantity : Int) (day : Nat) (preClose : ℚ)
    (positive : 0 < quantity) : BrokerOp :=
  let at930 := Instant.atMinute day 570 Instant.open_lt
  let order : StrategyOrder :=
    { symbol := "600000.SH", action, quantity, executeAt := at930, metadata := [], session := none,
      limitPrice := none, quantity_pos := positive }
  .execute order (some (levelBar preClose)) at930 (some preClose)

/-- A lot bought at 10 on a taxed account, doubled by bonus shares and joined by a lot
    at 5. -/
def bonusRun : List BrokerOp :=
  [.openDay 20240102 (fun _ => some (levelBar 10)) fun _ => {},
    levelTrade .buy 100 20240102 10 roundLot_pos,
    .mark Bar.close fun _ => some (levelBar 10),
    .openDay 20240103 (fun _ => some (levelBar 5)) fun _ =>
      { bonusPerShare := some 1, recordDate := some 20240102 },
    levelTrade .buy 100 20240103 5 roundLot_pos]

/-- The bonus shares keep the date of the lot they came to. -/
theorem bonus_run_kept : ∃ s, BrokerRun.ofOps { dividendTax := true } bonusRun = .ok s ∧
    (s.broker.lots.get? "600000.SH").map (List.map fun lot => (lot.quantity, lot.acquired)) =
      some [(200, 20240102), (100, 20240103)] ∧
    ∃ b', s.broker.restoreLots s.broker.lotRecords = .ok b' ∧
      b' = { s.broker with lots := b'.lots } ∧ b'.lots.Equiv s.broker.lots := by
  have booked : ∃ s ∈ (BrokerRun.ofOps { dividendTax := true } bonusRun).toOption,
      (s.broker.lots.get? "600000.SH").map (List.map fun lot => (lot.quantity, lot.acquired)) =
        some [(200, 20240102), (100, 20240103)] := by
    decide +kernel
  obtain ⟨s, done, lots⟩ := booked
  have run := toOption_eq_some.mp done
  have ordered : DaysInOrder bonusRun := by decide
  exact ⟨s, run, lots, (holdings_kept (BrokerRun.reachable ordered run).1).2.2.2⟩

end AutoTrade
