import AutoTrade.Environment.Proofs.Holdings

/-!
# Shares bought today are sold tomorrow

The shares a name offers on a day are those it held when the day opened, less what
the day sold of them. On a taxed account the oldest lots cover them, and those
were acquired before the day.
-/

namespace AutoTrade

open DailyBroker

/-- What an opening makes of a position. -/
def Opened (before after : Position) : Prop :=
  after = released before ∨
    ∃ ex, ExDateShares (released before) ex ∧ after = ex.position (released before)

namespace DailyBroker

/-- The shares an account holds of a name. -/
def heldShares (b : DailyBroker) (symbol : Symbol) : Int :=
  ((b.positions.get? symbol).map Position.quantity).getD 0

/-- The shares it offers of it. -/
def offered (b : DailyBroker) (symbol : Symbol) : Int :=
  ((b.positions.get? symbol).map Position.availableQuantity).getD 0

variable {events : Symbol → Distribution} {bars : Symbol → Option Bar} {b b' : DailyBroker}

theorem openPosition_opened {day : Nat} {symbol : Symbol} {position : Position}
    (h : openPosition day bars events b (symbol, position) = .ok b') :
    ∃ after, b'.positions.get? symbol = some after ∧ Opened position after := by
  rcases openPosition_cases h with rfl | ⟨bar, ex, lots, -, effect, -, rfl⟩
  · exact ⟨released position, Dict.get?_set_self _ _ _, .inl rfl⟩
  · exact ⟨ex.position (released position), Dict.get?_set_self _ _ _,
      .inr ⟨ex, exDateOf_shares effect, rfl⟩⟩

theorem openDay_each {day : Nat} {symbol : Symbol} {R : Position → Position → Prop}
    (each : ∀ c c' position, openPosition day bars events c (symbol, position) = .ok c' →
      ∃ after, c'.positions.get? symbol = some after ∧ R position after)
    (new : b.currentDay ≠ some day) (h : b.openDay day bars events = .ok b') :
    (b.positions.get? symbol = none → b'.positions.get? symbol = none) ∧
      ∀ before, b.positions.get? symbol = some before →
        ∃ after, b'.positions.get? symbol = some after ∧ R before after := by
  rw [openDay, if_neg new] at h
  have loop : ∀ (entries : List (Symbol × Position)) (c : DailyBroker),
      (entries.map Prod.fst).Nodup → entries.foldlM (openPosition day bars events) c = .ok b' →
      (symbol ∉ entries.map Prod.fst → b'.positions.get? symbol = c.positions.get? symbol) ∧
        ∀ before, (symbol, before) ∈ entries →
          ∃ after, b'.positions.get? symbol = some after ∧ R before after := by
    intro entries
    induction entries with
    | nil =>
      intro c _ run
      obtain rfl := (foldlM_nil _ c b').mp run
      exact ⟨fun _ => rfl, by simp⟩
    | cons entry rest ih =>
      obtain ⟨name, position⟩ := entry
      intro c nodup run
      obtain ⟨d, first, later⟩ := foldlM_cons_eq_ok.mp run
      obtain ⟨fresh, distinct⟩ := List.nodup_cons.mp nodup
      obtain ⟨untouched, opened⟩ := ih d distinct later
      constructor
      · intro absent
        rw [List.map_cons, List.mem_cons] at absent
        push Not at absent
        rw [untouched absent.2, openPosition_get?_of_ne first (Ne.symm absent.1)]
      · intro before member
        rcases List.mem_cons.mp member with here | behind
        · obtain ⟨rfl, rfl⟩ := Prod.mk.inj here
          obtain ⟨after, found, made⟩ := each c d before first
          exact ⟨after, (untouched fresh).trans found, made⟩
        · exact opened before behind
  obtain ⟨untouched, opened⟩ := loop _ _ b.positions.nodup h
  constructor
  · intro none
    exact (untouched (Dict.get?_eq_none_iff.mp none)).trans none
  · intro before found
    exact opened before (Dict.mem_entries_iff.mpr found)

theorem openDay_opened {day : Nat} (new : b.currentDay ≠ some day)
    (h : b.openDay day bars events = .ok b') (symbol : Symbol) :
    (b.positions.get? symbol = none → b'.positions.get? symbol = none) ∧
      ∀ before, b.positions.get? symbol = some before →
        ∃ after, b'.positions.get? symbol = some after ∧ Opened before after :=
  openDay_each (fun _ _ _ => openPosition_opened) new h

theorem Opened.offers {before after : Position} (opened : Opened before after) :
    after.availableQuantity ≤ before.quantity := by
  rcases opened with rfl | ⟨ex, shares, rfl⟩
  · exact le_refl _
  · unfold ExDate.position
    dsimp only
    split
    · exact min_le_left _ _
    · exact le_refl _

theorem openDay_offered {last day : Nat} (kept : HoldingsKept last b)
    (new : b.currentDay ≠ some day) (h : b.openDay day bars events = .ok b') (symbol : Symbol) :
    b'.offered symbol ≤ min (b.heldShares symbol) (b'.heldShares symbol) := by
  obtain ⟨absent, opened⟩ := openDay_opened new h symbol
  unfold offered heldShares
  cases found : b.positions.get? symbol with
  | none =>
    rw [absent found]
    exact le_refl _
  | some before =>
    obtain ⟨after, found', made⟩ := opened before found
    have whole := (kept.openDay h).positions symbol after found'
    rw [found']
    exact le_min (Opened.offers made) whole.available_le

end DailyBroker

/-- The shares of a name a list of executions sold. -/
def soldOf (symbol : Symbol) (executions : List Execution) : Int :=
  ((executions.filter fun e => e.status = .filled ∧ e.action = .sell ∧ e.symbol = symbol).map
    Execution.quantity).sum

theorem soldOf_append (symbol : Symbol) (executions more : List Execution) :
    soldOf symbol (executions ++ more) = soldOf symbol executions + soldOf symbol more := by
  simp [soldOf]

theorem soldOf_singleton (symbol : Symbol) (e : Execution) :
    soldOf symbol [e] =
      if e.status = .filled ∧ e.action = .sell ∧ e.symbol = symbol then e.quantity else 0 := by
  unfold soldOf
  split_ifs with counted
  · simp [counted]
  · simp [counted]

namespace DailyBroker

theorem execute_offered {day : Nat} {b b' : DailyBroker} {order : StrategyOrder} {bar : Option Bar}
    {matchedAt : Instant} {rawPrice : Option ℚ} {e : Execution} (kept : HoldingsKept day b)
    (h : b.execute order bar matchedAt rawPrice = .ok (b', e)) (symbol : Symbol) :
    b'.offered symbol + soldOf symbol [e] = b.offered symbol := by
  rw [soldOf_singleton]
  rcases execute_cases h with ⟨reason, left⟩ | ⟨dayBar, base, p, accepted, -, -, -, filled⟩
  · obtain ⟨rfl, rfl⟩ := Prod.mk.inj left
    simp [rejection]
  obtain ⟨current, commission, stampDuty, -, -, cases⟩ := fillAt_cases filled
  rcases cases with ⟨-, -, left⟩ | ⟨bought, isBuy, made, left⟩ |
    ⟨sold, tax, realized, isSell, made, left⟩
  · obtain ⟨rfl, rfl⟩ := Prod.mk.inj left
    simp [rejection]
  · obtain ⟨rfl, rfl⟩ := Prod.mk.inj left
    obtain ⟨-, rfl⟩ := buy_eq_some made
    have counted : ¬ ((fill order matchedAt p commission stampDuty 0 none).status = .filled ∧
        (fill order matchedAt p commission stampDuty 0 none).action = .sell ∧
        (fill order matchedAt p commission stampDuty 0 none).symbol = symbol) := by
      simp [fill, isBuy]
    rw [if_neg counted, add_zero]
    unfold offered
    rw [Dict.get?_set]
    split_ifs with here
    · subst here
      cases b.positions.get? order.symbol <;> rfl
    · rfl
  · obtain ⟨rfl, rfl⟩ := Prod.mk.inj left
    obtain ⟨position, lots, found, -, -, rfl⟩ := sell_eq_ok made
    have whole := kept.positions order.symbol position found
    have covered := rejectReason_sell accepted isSell found
    have least := whole.available_le
    unfold offered withPosition soldPosition
    by_cases here : order.symbol = symbol
    · subst here
      have counted : (fill order matchedAt p commission stampDuty tax (some realized)).status =
          .filled ∧ (fill order matchedAt p commission stampDuty tax (some realized)).action =
          .sell ∧ (fill order matchedAt p commission stampDuty tax (some realized)).symbol =
          order.symbol := ⟨rfl, isSell, rfl⟩
      rw [if_pos counted, found]
      by_cases gone : position.quantity - order.quantity = 0
      · rw [if_pos gone]
        dsimp only [fill]
        rw [Dict.get?_erase, if_pos rfl]
        simp only [Option.map_none, Option.getD_none, Option.map_some, Option.getD_some]
        omega
      · rw [if_neg gone]
        dsimp only [fill]
        rw [Dict.get?_set_self]
        simp only [Option.map_some, Option.getD_some]
        omega
    · have counted : ¬ ((fill order matchedAt p commission stampDuty tax (some realized)).status =
          .filled ∧ (fill order matchedAt p commission stampDuty tax (some realized)).action =
          .sell ∧ (fill order matchedAt p commission stampDuty tax (some realized)).symbol =
          symbol) := fun counted => here counted.2.2
      rw [if_neg counted, add_zero]
      by_cases gone : position.quantity - order.quantity = 0
      · rw [if_pos gone]
        dsimp only
        rw [Dict.get?_erase, if_neg here]
      · rw [if_neg gone]
        dsimp only
        rw [Dict.get?_set_of_ne _ _ here]

theorem markBy_offered (b : DailyBroker) (field : Bar → Option ℚ) (bars : Symbol → Option Bar)
    (symbol : Symbol) : (b.markBy field bars).offered symbol = b.offered symbol := by
  unfold offered markBy
  rw [Dict.get?_mapValues]
  cases b.positions.get? symbol with
  | none => rfl
  | some p =>
    show (markPositionBy field bars symbol p).availableQuantity = p.availableQuantity
    unfold markPositionBy
    split
    · rfl
    · split <;> rfl

end DailyBroker

namespace DailyBroker

/-- Every lot of an account was acquired on a day of `P`. -/
def LotDays (P : Nat → Prop) (b : DailyBroker) : Prop :=
  ∀ symbol lots, b.lots.get? symbol = some lots → ∀ lot ∈ lots, P lot.acquired

theorem LotDays.mono {P Q : Nat → Prop} {b : DailyBroker} (dated : LotDays P b)
    (more : ∀ day, P day → Q day) : LotDays Q b :=
  fun symbol lots found lot member => more _ (dated symbol lots found lot member)

theorem LotDays.set {P : Nat → Prop} {b : DailyBroker} (dated : LotDays P b) {b' : DailyBroker}
    {symbol : Symbol} {rows : Option (List Lot)}
    (lots : ∀ other, b'.lots.get? other = if symbol = other then rows else b.lots.get? other)
    (here : ∀ left, rows = some left → ∀ lot ∈ left, P lot.acquired) : LotDays P b' := by
  intro other left found
  rw [lots] at found
  split_ifs at found with same
  · exact here left found
  · exact dated other left found

variable {b b' : DailyBroker} {day : Nat} {events : Symbol → Distribution}
  {bars : Symbol → Option Bar}

theorem openDay_lotDays {P : Nat → Prop} (dated : LotDays P b)
    (h : b.openDay day bars events = .ok b') : LotDays P b' := by
  refine openDay_invariant (P := LotDays P) (fun _ dated => dated) ?_ h dated
  intro c c' symbol position dated _ step
  rcases openPosition_cases step with rfl | ⟨bar, ex, lots, -, -, settled, rfl⟩
  · exact dated
  unfold exDateLots at settled
  split at settled
  · split at settled
    · cases settled
    rename_i held found
    obtain rfl := Except.ok.inj settled
    refine LotDays.set dated (fun other => Dict.get?_set _ _ _ _) ?_
    intro left same lot member
    obtain rfl := Option.some.inj same
    obtain ⟨-, acquired⟩ := settleLots_spec ex.incomePerShare ex.ratio ex.oldRule 0 0 held
    obtain ⟨old, inside, same⟩ := List.mem_map.mp (acquired.mem (List.mem_map_of_mem member))
    exact same ▸ dated symbol held found old inside
  · obtain rfl := Except.ok.inj settled
    exact dated

variable {order : StrategyOrder} {rawPrice : Option ℚ} {bar : Option Bar} {matchedAt : Instant}
  {e : Execution}

theorem execute_lots (kept : HoldingsKept day b) (today : b.currentDay = some day)
    (h : b.execute order bar matchedAt rawPrice = .ok (b', e)) :
    b'.lots = b.lots ∨
      (b'.lots = b.lots.set order.symbol
          ((b.lots.get? order.symbol).getD [] ++ [⟨order.quantity, day, 0, 0⟩]) ∧
        b.profile.dividendTax = true) ∨
      ∃ held left, b.lots.get? order.symbol = some held ∧
        LeavesShares day order.quantity held left ∧ soldOf order.symbol [e] = order.quantity ∧
        ∀ other, b'.lots.get? other = if order.symbol = other then
          (if left = [] then none else some left) else b.lots.get? other := by
  rcases execute_cases h with ⟨reason, left⟩ | ⟨dayBar, base, p, accepted, -, -, -, filled⟩
  · obtain ⟨rfl, rfl⟩ := Prod.mk.inj left
    exact .inl rfl
  obtain ⟨current, commission, stampDuty, opened, -, cases⟩ := fillAt_cases filled
  obtain rfl : day = current := Option.some.inj (today.symm.trans opened)
  by_cases taxed : b.profile.dividendTax = true
  · rcases cases with ⟨-, -, left⟩ | ⟨bought, -, made, left⟩ |
      ⟨sold, tax, realized, isSell, made, left⟩
    · obtain ⟨rfl, rfl⟩ := Prod.mk.inj left
      exact .inl rfl
    · obtain ⟨rfl, rfl⟩ := Prod.mk.inj left
      obtain ⟨-, rfl⟩ := buy_eq_some made
      exact .inr (.inl ⟨if_pos taxed, taxed⟩)
    · obtain ⟨rfl, rfl⟩ := Prod.mk.inj left
      obtain ⟨position, lots, found, released, -, rfl⟩ := sell_eq_ok made
      rw [saleLots, if_pos taxed] at released
      obtain ⟨held, left, recorded, fifo, rows⟩ := takeLots_eq_ok released
      obtain ⟨held', recorded', inOrder, -⟩ := kept.lots_of_position taxed found
      obtain rfl : held = held' := Option.some.inj (recorded.symm.trans recorded')
      refine .inr (.inr ⟨held, left, recorded, releaseLots_leaves inOrder order.quantity_pos.le fifo,
        ?_, rows⟩)
      rw [soldOf_singleton, if_pos ⟨rfl, isSell, rfl⟩]
      rfl
  · refine .inl ?_
    have plain : b.profile.dividendTax = false := by simpa using taxed
    rcases cases with ⟨-, -, left⟩ | ⟨bought, -, made, left⟩ | ⟨sold, tax, realized, -, made, left⟩
    · obtain ⟨rfl, rfl⟩ := Prod.mk.inj left
      rfl
    · obtain ⟨rfl, rfl⟩ := Prod.mk.inj left
      obtain ⟨-, rfl⟩ := buy_eq_some made
      exact if_neg taxed
    · obtain ⟨rfl, rfl⟩ := Prod.mk.inj left
      obtain ⟨position, lots, -, released, -, rfl⟩ := sell_eq_ok made
      exact (saleLots_untaxed plain released).2

theorem execute_lotDays {P : Nat → Prop} (dated : LotDays P b) (kept : HoldingsKept day b)
    (today : b.currentDay = some day) (opened : P day)
    (h : b.execute order bar matchedAt rawPrice = .ok (b', e)) : LotDays P b' := by
  rcases execute_lots kept today h with same | ⟨bought, -⟩ | ⟨held, left, found, leaves, -, rows⟩
  · exact fun symbol lots found => dated symbol lots (same ▸ found)
  · refine dated.set (fun other => bought ▸ Dict.get?_set _ _ _ _) ?_
    intro left same lot member
    obtain rfl := Option.some.inj same
    rcases List.mem_append.mp member with old | new
    · cases recorded : b.lots.get? order.symbol with
      | none =>
        rw [recorded] at old
        cases old
      | some lots =>
        rw [recorded] at old
        exact dated order.symbol lots recorded lot old
    · rw [List.mem_singleton.mp new]
      exact opened
  · refine dated.set rows ?_
    intro rest same lot member
    split_ifs at same with gone
    obtain rfl := Option.some.inj same
    obtain ⟨old, inside, same⟩ := List.mem_map.mp (leaves.acquired.mem (List.mem_map_of_mem member))
    exact same ▸ dated order.symbol held found old inside

/-- What an account offers of a name is covered by its lots from before the day. -/
def CoveredOn (day : Nat) (b : DailyBroker) : Prop :=
  ∀ symbol lots, b.lots.get? symbol = some lots → b.offered symbol ≤ seasoned day lots

theorem openDay_coveredOn {last day : Nat} (kept : HoldingsKept last b)
    (before : LotDays (fun acquired => acquired < day) b) (h : b.openDay day bars events = .ok b') :
    CoveredOn day b' := by
  intro symbol lots recorded
  have kept' := kept.openDay h
  have older := openDay_lotDays before h symbol lots recorded
  rw [seasoned_eq_sharesOf older]
  by_cases taxed : b'.profile.dividendTax = true
  · have name := kept'.ledger taxed symbol
    rw [recorded] at name
    unfold offered
    cases found : b'.positions.get? symbol with
    | none =>
      rw [found] at name
      cases name
    | some p =>
      rw [found] at name
      cases name with
      | held order shares =>
        rw [shares]
        exact (kept'.positions symbol p found).available_le
  · rw [kept'.untaxed (by simpa using taxed)] at recorded
    cases recorded

theorem execute_coveredOn (covered : CoveredOn day b) (kept : HoldingsKept day b)
    (today : b.currentDay = some day) (h : b.execute order bar matchedAt rawPrice = .ok (b', e)) :
    CoveredOn day b' := by
  intro symbol lots recorded
  have offers := execute_offered kept h symbol
  have sold : 0 ≤ soldOf symbol [e] := by
    rw [soldOf_singleton]
    split_ifs
    · rw [(execute_frame h).quantity_eq]
      exact order.quantity_pos.le
    · exact le_refl _
  rcases execute_lots kept today h with same | ⟨bought, taxed⟩ | ⟨held, left, found, leaves, all, rows⟩
  · have := covered symbol lots (same ▸ recorded)
    omega
  · rw [bought, Dict.get?_set] at recorded
    split_ifs at recorded with here
    · subst here
      obtain rfl := Option.some.inj recorded
      rw [seasoned_append]
      have fresh : seasoned day [⟨order.quantity, day, 0, 0⟩] = 0 :=
        seasoned_eq_zero fun lot member => by rw [List.mem_singleton.mp member]
      cases held : b.lots.get? order.symbol with
      | none =>
        have unheld : b.offered order.symbol = 0 := by
          unfold offered
          rw [kept.position_of_none taxed held]
          rfl
        have none : seasoned day [] = 0 := rfl
        simp only [Option.getD_none]
        omega
      | some lots =>
        have := covered order.symbol lots held
        simp only [Option.getD_some]
        omega
    · have := covered symbol lots recorded
      omega
  · rw [rows] at recorded
    split_ifs at recorded with here gone
    · subst here
      obtain rfl := Option.some.inj recorded
      have before := covered order.symbol held found
      have left : 0 ≤ b'.offered order.symbol := by
        have kept' := kept.execute (fun _ current => Option.some.inj (current.symm.trans today)) h
        unfold offered
        cases position : b'.positions.get? order.symbol with
        | none => exact le_refl _
        | some p => exact (kept'.positions order.symbol p position).available_nonneg
      rw [leaves.seasoned_eq (by omega)]
      omega
    · have := covered symbol lots recorded
      omega

theorem execute_of_unopened (unopened : b.currentDay = none)
    (h : b.execute order bar matchedAt rawPrice = .ok (b', e)) : b' = b := by
  rcases execute_cases h with ⟨reason, left⟩ | ⟨_, _, _, -, -, -, -, filled⟩
  · exact (Prod.mk.inj left).1
  · obtain ⟨day, _, _, opened, -⟩ := fillAt_cases filled
    exact nomatch unopened.symm.trans opened

theorem asked_before {b : DailyBroker} (kept : HoldingsKept day b) (covered : CoveredOn day b)
    (sale : order.action = .sell) (accepted : b.rejectReason order bar rawPrice = none)
    {position : Position} (found : b.positions.get? order.symbol = some position)
    {lots : List Lot} (recorded : b.lots.get? order.symbol = some lots) :
    InOrder day lots ∧ order.quantity ≤ seasoned day lots := by
  have offers : b.offered order.symbol = position.availableQuantity := by
    unfold offered
    rw [found]
    rfl
  have enough := rejectReason_sell accepted sale found
  have before := covered order.symbol lots recorded
  by_cases taxed : b.profile.dividendTax = true
  · obtain ⟨lots', recorded', order', -⟩ := kept.lots_of_position taxed found
    obtain rfl : lots = lots' := Option.some.inj (recorded.symm.trans recorded')
    exact ⟨order', by omega⟩
  · rw [kept.untaxed (by simpa using taxed)] at recorded
    cases recorded

theorem execute_tax_ok {b : DailyBroker} (kept : HoldingsKept day b) (covered : CoveredOn day b)
    (dated : LotDays (fun day => (parseDay (some day)).isOk) b) (today : b.currentDay = some day)
    (valid : (parseDay (some day)).isOk) (order : StrategyOrder) (bar : Option Bar)
    (matchedAt : Instant) (rawPrice : Option ℚ) (e : DividendTaxError) :
    b.execute order bar matchedAt rawPrice ≠ .error (.dividendTax e) := by
  intro h
  unfold execute at h
  split at h
  · cases h
  · rename_i dayBar base _ accepted
    split at h
    · cases h
    rename_i p _
    unfold fillAt at h
    rw [today] at h
    dsimp only at h
    split at h
    · rename_i error unpaid
      obtain rfl := Except.error.inj h
      unfold BrokerProfile.fees at unpaid
      split at unpaid <;> cases unpaid
    · cases action : order.action with
      | buy =>
        rw [action] at h
        dsimp only at h
        split at h <;> cases h
      | sell =>
        rw [action] at h
        dsimp only at h
        split at h
        · rename_i error unsold
          obtain rfl := Except.error.inj h
          unfold sell at unsold
          split at unsold
          · cases unsold
          rename_i position found
          split at unsold
          · rename_i error refused
            obtain rfl := Except.error.inj unsold
            unfold saleLots at refused
            split at refused
            · unfold takeLots at refused
              split at refused
              · cases refused
              rename_i lots recorded
              obtain ⟨inOrder, enough⟩ := asked_before kept covered action accepted found recorded
              obtain ⟨tax, left, released⟩ := releaseLots_ok order.symbol inOrder
                order.quantity_pos.le enough (dated order.symbol lots recorded) valid
              rw [released] at refused
              cases left <;> cases refused
            · cases refused
          · cases unsold
        · cases h
  · cases h

end DailyBroker

namespace BrokerRun

variable {profile : BrokerProfile}

theorem ofOps_snoc {done : List BrokerOp} {op : BrokerOp} {s s' : BrokerRun}
    (run : ofOps profile done = .ok s) (step : s.step op = .ok s') :
    ofOps profile (done ++ [op]) = .ok s' :=
  foldlM_append_eq_ok.mpr ⟨s, run, foldlM_cons_eq_ok.mpr ⟨s', step, (foldlM_nil _ s' s').mpr rfl⟩⟩

theorem lotDays {ops : List BrokerOp} {s : BrokerRun} (ordered : DaysInOrder ops)
    (run : ofOps profile ops = .ok s) :
    LotDays (fun day => day ∈ ops.filterMap BrokerOp.day?) s.broker := by
  refine (foldlM_along (P := fun done s => ofOps profile done = .ok s ∧
      LotDays (fun day => day ∈ done.filterMap BrokerOp.day?) s.broker) ?_ run ⟨rfl, nofun⟩).2
  intro done op rest s s' whole step before
  obtain ⟨run, dated⟩ := before
  refine ⟨ofOps_snoc run step, ?_⟩
  have more : ∀ day, day ∈ done.filterMap BrokerOp.day? →
      day ∈ (done ++ [op]).filterMap BrokerOp.day? := by
    intro day member
    rw [List.filterMap_append]
    exact List.mem_append_left _ member
  cases op with
  | openDay day bars events =>
    obtain ⟨b, opens, rfl⟩ := except_map_eq_ok.mp step
    exact openDay_lotDays (dated.mono more) opens
  | mark field bars =>
    obtain rfl := Except.ok.inj step
    exact dated.mono more
  | execute order bar matchedAt rawPrice =>
    obtain ⟨⟨b, e⟩, executes, rfl⟩ := except_map_eq_ok.mp step
    have prefixed : DaysInOrder done := by
      unfold DaysInOrder at ordered ⊢
      rw [whole, List.filterMap_append] at ordered
      exact (List.pairwise_append.mp ordered).1
    obtain ⟨reached, opened⟩ := reachable prefixed run
    cases today : s.broker.currentDay with
    | none =>
      obtain rfl := execute_of_unopened today executes
      exact dated.mono more
    | some day =>
      have kept := reached.kept.2
      rw [DailyBroker.today, today] at kept
      exact execute_lotDays (dated.mono more) kept today (more day (opened day today)) executes

/-- An account on `day`, and what it has sold since it opened the day. -/
structure Trading (day : Nat) (opened s : BrokerRun) : Prop where
  today : s.broker.currentDay = some day
  kept : HoldingsKept day s.broker
  covered : CoveredOn day s.broker
  dated : LotDays (fun day => (parseDay (some day)).isOk) s.broker
  sold : ∃ sales, s.executions = opened.executions ++ sales ∧
    ∀ symbol, s.broker.offered symbol + soldOf symbol sales = opened.broker.offered symbol

theorem Trading.step {day : Nat} {opened s s' : BrokerRun} {op : BrokerOp}
    (trading : Trading day opened s) (valid : (parseDay (some day)).isOk)
    (same : ∀ d, op.day? = some d → d = day) (h : s.step op = .ok s') : Trading day opened s' := by
  obtain ⟨sales, rows, sold⟩ := trading.sold
  cases op with
  | openDay d bars events =>
    obtain ⟨b, opens, rfl⟩ := except_map_eq_ok.mp h
    obtain rfl := same d rfl
    rw [openDay, if_pos trading.today] at opens
    obtain rfl := Except.ok.inj opens
    exact trading
  | mark field bars =>
    obtain rfl := Except.ok.inj h
    refine ⟨trading.today, trading.kept.markBy field bars, fun symbol lots recorded => ?_,
      trading.dated, sales, rows, fun symbol => ?_⟩
    · exact (markBy_offered s.broker field bars symbol).trans_le (trading.covered symbol lots recorded)
    · exact (congrArg (· + _) (markBy_offered s.broker field bars symbol)).trans (sold symbol)
  | execute order bar matchedAt rawPrice =>
    obtain ⟨⟨b, e⟩, executes, rfl⟩ := except_map_eq_ok.mp h
    have current : ∀ current, s.broker.currentDay = some current → current = day :=
      fun _ here => Option.some.inj (here.symm.trans trading.today)
    refine ⟨(execute_frame executes).currentDay_eq.trans trading.today,
      trading.kept.execute current executes,
      execute_coveredOn trading.covered trading.kept trading.today executes,
      execute_lotDays trading.dated trading.kept trading.today valid executes,
      sales ++ [e], ?_, fun symbol => ?_⟩
    · show s.executions ++ [e] = _
      rw [rows, List.append_assoc]
    · have offers := execute_offered trading.kept executes symbol
      have before := sold symbol
      show b.offered symbol + _ = _
      rw [soldOf_append]
      omega

end BrokerRun

open BrokerRun

/-- T+1 over whole runs. Whatever a run did before it opens a day and does on it, the
day sells of a name no more than the account held when it opened, before its
ex-date and after it; a sale let through asks its tax only of lots acquired on an earlier
day, and no execution fails on the tax. -/
theorem t_plus_one (profile : BrokerProfile) (before during : List BrokerOp) (day : Nat)
    (bars : Symbol → Option Bar) (events : Symbol → Distribution) (start opened s : BrokerRun)
    (ordered : DaysInOrder (before ++ .openDay day bars events :: during))
    (valid : ∀ d ∈ (before ++ .openDay day bars events :: during).filterMap BrokerOp.day?,
      (parseDay (some d)).isOk)
    (unopened : day ∉ before.filterMap BrokerOp.day?)
    (within : ∀ d ∈ during.filterMap BrokerOp.day?, d = day)
    (run : BrokerRun.ofOps profile before = .ok start)
    (opens : start.step (.openDay day bars events) = .ok opened)
    (trades : during.foldlM BrokerRun.step opened = .ok s) :
    (∀ symbol, soldOf symbol (s.executions.drop start.executions.length) ≤
      min (start.broker.heldShares symbol) (opened.broker.heldShares symbol)) ∧
    (∀ (order : StrategyOrder) (bar : Option Bar) (rawPrice : Option ℚ) (lots : List Lot),
      order.action = .sell → s.broker.rejectReason order bar rawPrice = none →
      s.broker.lots.get? order.symbol = some lots →
      ∀ lot ∈ askedLots order.quantity lots, lot.acquired < day) ∧
    ∀ (order : StrategyOrder) (bar : Option Bar) (matchedAt : Instant) (rawPrice : Option ℚ)
      (e : DividendTaxError), s.broker.execute order bar matchedAt rawPrice ≠ .error (.dividendTax e) := by
  have days : (before ++ .openDay day bars events :: during).filterMap BrokerOp.day? =
      before.filterMap BrokerOp.day? ++ day :: during.filterMap BrokerOp.day? := by
    rw [List.filterMap_append, List.filterMap_cons_some (by rfl)]
  unfold DaysInOrder at ordered
  rw [days] at ordered valid
  have orderedBefore : DaysInOrder before := (List.pairwise_append.mp ordered).1
  have later := (List.pairwise_append.mp ordered).2.2
  have earlier : ∀ d ∈ before.filterMap BrokerOp.day?, d < day := by
    intro d member
    exact lt_of_le_of_ne (later d member day List.mem_cons_self) fun same => unopened (same ▸ member)
  obtain ⟨reached, current⟩ := BrokerRun.reachable orderedBefore run
  have new : start.broker.currentDay ≠ some day := fun today => unopened (current day today)
  have dated := BrokerRun.lotDays orderedBefore run
  obtain ⟨b, opening, rfl⟩ := except_map_eq_ok.mp opens
  obtain ⟨-, today, -⟩ := openDay_spec opening
  have start_le : start.broker.today ≤ day := by
    unfold DailyBroker.today
    cases on : start.broker.currentDay with
    | none => exact Nat.zero_le day
    | some last => exact (earlier last (current last on)).le
  have kept := reached.kept.2.mono start_le
  have validDay : (parseDay (some day)).isOk := valid day (List.mem_append_right _ List.mem_cons_self)
  have begun : Trading day ⟨b, start.executions⟩ ⟨b, start.executions⟩ := {
    today := today
    kept := kept.openDay opening
    covered := openDay_coveredOn kept (dated.mono earlier) opening
    dated := openDay_lotDays
      (dated.mono fun d member => valid d (List.mem_append_left _ member)) opening
    sold := ⟨[], (List.append_nil _).symm, fun symbol => add_zero _⟩ }
  have trading : Trading day ⟨b, start.executions⟩ s :=
    foldlM_invariant (P := Trading day ⟨b, start.executions⟩)
      (fun op member t t' step trading => trading.step validDay
        (fun d opensDay => within d (List.mem_filterMap.mpr ⟨op, member, opensDay⟩)) step)
      trades begun
  obtain ⟨sales, rows, sold⟩ := trading.sold
  refine ⟨fun symbol => ?_, fun order bar rawPrice lots sale accepted recorded => ?_,
    execute_tax_ok trading.kept trading.covered trading.dated trading.today validDay⟩
  · have offers : b.offered symbol ≤ min (start.broker.heldShares symbol) (b.heldShares symbol) :=
      openDay_offered kept new opening symbol
    have total : s.broker.offered symbol + soldOf symbol sales = b.offered symbol := sold symbol
    have left : 0 ≤ s.broker.offered symbol := by
      unfold offered
      cases position : s.broker.positions.get? symbol with
      | none => exact le_refl _
      | some p => exact (trading.kept.positions symbol p position).available_nonneg
    rw [rows, List.drop_left]
    show soldOf symbol sales ≤ min (start.broker.heldShares symbol) (b.heldShares symbol)
    omega
  · cases found : s.broker.positions.get? order.symbol with
    | none =>
      obtain ⟨-, dayBar, raw, -, -, -, passes⟩ := rejectReason_eq_none.mp accepted
      unfold orderReject at passes
      rw [sale, found] at passes
      cases passes
    | some position =>
      obtain ⟨inOrder, enough⟩ :=
        asked_before trading.kept trading.covered sale accepted found recorded
      exact askedLots_seasoned inOrder order.quantity_pos.le enough

/-- The day after: all 300 shares are held, and 200 of them sold. -/
theorem bonus_run_sells : ∃ start opened s, BrokerRun.ofOps { dividendTax := true } bonusRun = .ok start ∧
    start.step (.openDay 20240104 (fun _ => some (levelBar 5)) fun _ => {}) = .ok opened ∧
    [levelTrade .sell 200 20240104 5 (by decide)].foldlM BrokerRun.step opened = .ok s ∧
    soldOf "600000.SH" (s.executions.drop start.executions.length) = 200 ∧
    ∀ symbol, soldOf symbol (s.executions.drop start.executions.length) ≤
      min (start.broker.heldShares symbol) (opened.broker.heldShares symbol) := by
  have sells : ∃ start ∈ (BrokerRun.ofOps { dividendTax := true } bonusRun).toOption,
      ∃ opened ∈ (start.step (.openDay 20240104 (fun _ => some (levelBar 5)) fun _ => {})).toOption,
      ∃ s ∈ ([levelTrade .sell 200 20240104 5 (by decide)].foldlM BrokerRun.step opened).toOption,
        soldOf "600000.SH" (s.executions.drop start.executions.length) = 200 := by
    decide +kernel
  obtain ⟨start, ran, opened, opens, s, trades, sold⟩ := sells
  refine ⟨start, opened, s, toOption_eq_some.mp ran, toOption_eq_some.mp opens,
    toOption_eq_some.mp trades, sold, ?_⟩
  exact (t_plus_one { dividendTax := true } bonusRun [levelTrade .sell 200 20240104 5 (by decide)]
    20240104 (fun _ => some (levelBar 5)) (fun _ => {}) start opened s (by decide)
    (by decide +kernel) (by decide) (by decide) (toOption_eq_some.mp ran)
    (toOption_eq_some.mp opens) (toOption_eq_some.mp trades)).1

end AutoTrade
