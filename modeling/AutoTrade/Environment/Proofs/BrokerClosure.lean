import AutoTrade.Environment.Proofs.Broker

/-!
# The value an account carries

`DailyBroker.carried` is the cash of an account and the cost of what it holds.
A fill moves it by the P&L it realizes, an ex-date by the tax it withholds, and
nothing else moves it. The identity needs positions that hold shares
(`DailyBroker.Sound`), which every step keeps.
-/

namespace AutoTrade

/-- A position holds shares and offers no more than it holds. -/
structure Position.Sound (p : Position) : Prop where
  quantity_pos : 0 < p.quantity
  available_le : p.availableQuantity ≤ p.quantity

/-- The cost of what may be held. -/
def basisOf (position : Option Position) : ℚ := (position.map Position.basis).getD 0

variable {distribution : Distribution}

theorem ExDate.position_basis {tax : Bool} {symbol : Symbol} {day : Nat} {before : Position}
    {bar : Bar} {ex : ExDate}
    (h : exDateOf tax symbol day before bar distribution = .ok (some ex)) (sound : before.Sound) :
    (ex.position before).basis = before.basis - ex.credit := by
  have whole : (ex.quantityAfter : ℚ) ≠ 0 := by
    have held := sound.quantity_pos
    rcases exDateOf_spec h with ⟨-, positive⟩ | ⟨-, same, -⟩
    · exact_mod_cast positive.ne'
    · rw [same]
      exact_mod_cast held.ne'
  simp only [ExDate.position, Position.basis]
  field_simp

theorem ExDate.position_sound {tax : Bool} {symbol : Symbol} {day : Nat} {before : Position}
    {bar : Bar} {ex : ExDate}
    (h : exDateOf tax symbol day before bar distribution = .ok (some ex)) (sound : before.Sound) :
    (ex.position before).Sound := by
  rcases exDateOf_spec h with ⟨split, positive⟩ | ⟨none, same, -⟩
  · exact ⟨positive, by simp [ExDate.position, split]⟩
  · exact ⟨by simpa [ExDate.position, same] using sound.quantity_pos,
      by simpa [ExDate.position, none, same] using sound.available_le⟩

namespace DailyBroker

/-- Cash and the cost of every position. -/
def carried (b : DailyBroker) : ℚ := b.cash + b.positions.sum fun _ p => p.basis

def Sound (b : DailyBroker) : Prop := ∀ symbol p, b.positions.get? symbol = some p → p.Sound

/-- The dividend tax a list of corporate actions withheld. -/
def withheldBy (actions : List CorporateAction) : ℚ :=
  (actions.map CorporateAction.dividendTaxWithheld).sum

theorem weight_eq_basisOf (b : DailyBroker) (symbol : Symbol) :
    b.positions.weight (fun _ p => p.basis) symbol = basisOf (b.positions.get? symbol) := by
  unfold Dict.weight basisOf
  cases b.positions.get? symbol <;> rfl

theorem sum_set_basis (b : DailyBroker) (symbol : Symbol) (p : Position) :
    ((b.positions.set symbol p).sum fun _ p => p.basis) =
      (b.positions.sum fun _ p => p.basis) - basisOf (b.positions.get? symbol) + p.basis := by
  rw [Dict.sum_set, weight_eq_basisOf]

theorem carried_withPosition (b : DailyBroker) (symbol : Symbol) (position : Option Position) :
    (b.withPosition symbol position).carried =
      b.carried - basisOf (b.positions.get? symbol) + basisOf position := by
  cases position with
  | none =>
    simp only [withPosition, carried, Dict.sum_erase, weight_eq_basisOf, basisOf, Option.map_none,
      Option.getD_none]
    ring
  | some p =>
    simp only [withPosition, carried, sum_set_basis]
    simp only [basisOf, Option.map_some, Option.getD_some]
    ring

variable {symbol : Symbol}

theorem withPosition_sound {b : DailyBroker} (position : Option Position) (sound : b.Sound)
    (here : ∀ p ∈ position, p.Sound) : (b.withPosition symbol position).Sound := by
  intro other p found
  cases position with
  | none =>
    simp only [withPosition, Dict.get?_erase] at found
    split_ifs at found
    exact sound other p found
  | some q =>
    simp only [withPosition, Dict.get?_set] at found
    split_ifs at found
    · exact Option.some.inj found ▸ here q rfl
    · exact sound other p found

theorem Sound.set {b : DailyBroker} (sound : b.Sound) (symbol : Symbol) {p : Position}
    (here : p.Sound) : ∀ other q, (b.positions.set symbol p).get? other = some q → q.Sound :=
  withPosition_sound (some p) sound (by simpa using here)

theorem released_basis (p : Position) : (released p).basis = p.basis := rfl

theorem released_sound {p : Position} (sound : p.Sound) : (released p).Sound :=
  ⟨sound.quantity_pos, le_refl _⟩

/-- The corporate actions an account has recorded since another, and that they
account for what it carries. -/
def OpenedFrom (start b : DailyBroker) : Prop :=
  b.Sound ∧ ∃ actions, b.corporateActions = start.corporateActions ++ actions ∧
    b.carried = start.carried - withheldBy actions

variable {bars : Symbol → Option Bar} {events : Symbol → Distribution}

theorem openPosition_carried {start b b' : DailyBroker} {day : Nat} {position : Position}
    (opened : OpenedFrom start b) (held : b.positions.get? symbol = some position)
    (h : openPosition day bars events b (symbol, position) = .ok b') : OpenedFrom start b' := by
  obtain ⟨sound, actions, recorded, carries⟩ := opened
  have positionSound := released_sound (sound symbol position held)
  rcases openPosition_cases h with rfl | ⟨bar, ex, lots, -, effect, -, rfl⟩
  · refine ⟨sound.set symbol positionSound, actions, recorded, ?_⟩
    rw [← carries, carried, carried, sum_set_basis, held]
    simp [basisOf, released_basis]
  · refine ⟨sound.set symbol (ex.position_sound effect positionSound),
      actions ++ [ex.action symbol day (released position) (events symbol).cashPerShare], ?_, ?_⟩
    · simp [withExDate, recorded]
    · have basis := ex.position_basis effect positionSound
      rw [released_basis] at basis
      simp only [withExDate, carried, sum_set_basis, held, basis]
      simp only [carried] at carries
      simp only [basisOf, Option.map_some, Option.getD_some, withheldBy, List.map_append,
        List.sum_append, List.map_cons, List.map_nil, List.sum_cons, List.sum_nil, ExDate.action]
      simp only [withheldBy] at carries
      linarith

variable {b b' : DailyBroker}

theorem openDay_carried {day : Nat} (sound : b.Sound) (h : b.openDay day bars events = .ok b') :
    OpenedFrom b b' :=
  openDay_invariant (fun _ opened => opened)
    (fun _ _ _ _ opened held step => openPosition_carried opened held step) h
    ⟨sound, [], by simp, by simp [withheldBy]⟩

variable {quantity : Int} {existing : Option Position}

theorem boughtPosition_basis {cost p : ℚ} (positive : 0 < quantity)
    (sound : ∀ q ∈ existing, q.Sound) :
    (boughtPosition existing quantity cost p).basis = basisOf existing + cost := by
  cases existing with
  | none =>
    have : (quantity : ℚ) ≠ 0 := by exact_mod_cast positive.ne'
    simp only [boughtPosition, Position.basis, basisOf, Option.map_none, Option.getD_none]
    field_simp
    ring
  | some held =>
    have held_pos := (sound held rfl).quantity_pos
    have : ((held.quantity + quantity : Int) : ℚ) ≠ 0 := by
      have : 0 < held.quantity + quantity := by omega
      exact_mod_cast this.ne'
    simp only [boughtPosition, Position.basis, basisOf, Option.map_some, Option.getD_some]
    field_simp

theorem boughtPosition_sound {cost p : ℚ} (positive : 0 < quantity)
    (sound : ∀ q ∈ existing, q.Sound) :
    (boughtPosition existing quantity cost p).Sound := by
  cases existing with
  | none => exact ⟨positive, positive.le⟩
  | some held =>
    have := sound held rfl
    have := this.quantity_pos
    have := (sound held rfl).available_le
    exact ⟨by simp only [boughtPosition]; omega, by simp only [boughtPosition]; omega⟩

theorem soldPosition_basis (position : Position) (quantity : Int) (p : ℚ) :
    basisOf (soldPosition position quantity p) =
      position.basis - position.averageCost * quantity := by
  unfold soldPosition
  split_ifs with gone
  · have : (position.quantity : ℚ) = quantity := by exact_mod_cast (by omega : _ = quantity)
    simp [basisOf, Position.basis, this]
  · simp only [basisOf, Position.basis, Option.map_some, Option.getD_some, Int.cast_sub]
    ring

theorem soldPosition_sound {position : Position} {p : ℚ} (sound : position.Sound)
    (enough : quantity ≤ position.availableQuantity) :
    ∀ q ∈ soldPosition position quantity p, q.Sound := by
  have available := sound.available_le
  unfold soldPosition
  split_ifs with gone
  · simp
  · intro q here
    obtain rfl := Option.some.inj here
    exact ⟨by simp only; omega, by simp only; omega⟩

/-- The P&L an execution realizes. -/
def realizedBy (e : Execution) : ℚ := e.realizedPnl.getD 0

theorem fillAt_carried {order : StrategyOrder} {matchedAt : Instant} {p : ℚ} {e : Execution}
    (sound : b.Sound)
    (available : order.action = .sell → ∀ position,
      b.positions.get? order.symbol = some position → order.quantity ≤ position.availableQuantity)
    (h : b.fillAt order matchedAt p = .ok (b', e)) :
    b'.Sound ∧ b'.carried = b.carried + realizedBy e := by
  obtain ⟨day, commission, stampDuty, -, -, cases⟩ := fillAt_cases h
  have here : ∀ q ∈ b.positions.get? order.symbol, q.Sound := fun q found => sound _ q found
  rcases cases with ⟨-, -, left⟩ | ⟨bought, -, made, left⟩ | ⟨sold, tax, realized, sale, made, left⟩
  · simp only [Prod.mk.injEq] at left
    obtain ⟨rfl, rfl⟩ := left
    exact ⟨sound, by simp [realizedBy, rejection, carried]⟩
  · simp only [Prod.mk.injEq] at left
    obtain ⟨rfl, rfl⟩ := left
    obtain ⟨-, rfl⟩ := buy_eq_some made
    refine ⟨sound.set _ (boughtPosition_sound order.quantity_pos here), ?_⟩
    simp only [carried, sum_set_basis, boughtPosition_basis order.quantity_pos here, realizedBy,
      fill, Option.getD_none]
    ring
  · simp only [Prod.mk.injEq] at left
    obtain ⟨rfl, rfl⟩ := left
    obtain ⟨position, lots, found, -, rfl, rfl⟩ := sell_eq_ok made
    have enough := available sale position found
    refine ⟨withPosition_sound (b := { b with cash := _, lots }) _ sound
      (soldPosition_sound (sound _ _ found) enough), ?_⟩
    have total := carried_withPosition
      { b with cash := b.cash + (p * order.quantity - commission - stampDuty - tax), lots }
      order.symbol (soldPosition position order.quantity p)
    rw [total, found, soldPosition_basis]
    simp only [carried, basisOf, Option.map_some, Option.getD_some, realizedBy, fill]
    ring

theorem execute_carried {order : StrategyOrder} {bar : Option Bar} {matchedAt : Instant}
    {rawPrice : Option ℚ} {e : Execution} (sound : b.Sound)
    (h : b.execute order bar matchedAt rawPrice = .ok (b', e)) :
    b'.Sound ∧ b'.carried = b.carried + realizedBy e := by
  rcases execute_cases h with ⟨reason, left⟩ | ⟨dayBar, base, p, accepted, -, -, -, filled⟩
  · simp only [Prod.mk.injEq] at left
    obtain ⟨rfl, rfl⟩ := left
    exact ⟨sound, by simp [realizedBy, rejection, carried]⟩
  · exact fillAt_carried sound (fun sale _ found => rejectReason_sell accepted sale found) filled

theorem markPosition_basis (bars : Symbol → Option Bar) (symbol : Symbol) (p : Position) :
    (markPosition bars symbol p).basis = p.basis := by
  unfold markPosition
  split
  · rfl
  · split <;> rfl

theorem markPosition_sound {p : Position} (sound : p.Sound) :
    (markPosition bars symbol p).Sound := by
  unfold markPosition
  split
  · exact sound
  · split
    · exact sound
    · exact ⟨sound.quantity_pos, sound.available_le⟩

theorem mark_carried (b : DailyBroker) (bars : Symbol → Option Bar) :
    (b.mark bars).carried = b.carried := by
  simp only [mark, carried, Dict.sum_mapValues, markPosition_basis]

theorem mark_sound {b : DailyBroker} (sound : b.Sound) : (b.mark bars).Sound := by
  intro symbol p found
  simp only [mark, Dict.get?_mapValues, Option.map_eq_some_iff] at found
  obtain ⟨q, held, rfl⟩ := found
  exact markPosition_sound (sound symbol q held)

end DailyBroker

end AutoTrade
