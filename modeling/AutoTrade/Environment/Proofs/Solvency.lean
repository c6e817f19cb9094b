import AutoTrade.Common.Lines
import AutoTrade.Environment.Proofs.Holdings

/-!
# The cash of an account

The account a strategy is given must not owe cash, and three steps can leave it
owing: a buy may spend more than there is by the tolerance, an ex-date may withhold
more by it, and a sale may cost more than it brings in. No other step can.
-/

namespace AutoTrade

open DailyBroker

/-- `AccountSnapshot.__post_init__` of what `account_snapshot` returns. -/
def acceptsSnapshot (snapshot : ℚ × List (Symbol × Int)) : Bool :=
  decide (0 ≤ snapshot.1) &&
    snapshot.2.all fun entry => decide (0 ≤ entry.2) && decide (strip entry.1 ≠ "")

/-- An order the order contract made. -/
def Contracted (order : StrategyOrder) : Prop :=
  ∃ record inferenceAt, StrategyOrder.fromRecord record inferenceAt = .ok order

theorem strip_ne_empty {text : String} :
    strip text ≠ "" ↔ ∃ c ∈ text.toList, c.isWhitespace = false := by
  rw [← trim_ne_nil]
  unfold strip
  rw [ne_eq, ne_eq, not_iff_not]
  constructor
  · intro blank
    simpa using congrArg String.toList blank
  · intro blank
    rw [blank]

theorem strip_strip_ne_empty {text : String} (filled : strip text ≠ "") :
    strip (strip text) ≠ "" := by
  obtain ⟨c, member, visible⟩ := strip_ne_empty.mp filled
  refine strip_ne_empty.mpr ⟨c, ?_, visible⟩
  simpa [strip] using mem_trim_of_not member visible

theorem fromRecord_symbol {record : OrderRecord} {inferenceAt : Instant} {order : StrategyOrder}
    (made : StrategyOrder.fromRecord record inferenceAt = .ok order) :
    strip record.symbol ≠ "" ∧ order.symbol = strip record.symbol := by
  obtain ⟨filled, -, limitPrice, positive, rfl⟩ := fromRecord_made made
  exact ⟨filled, rfl⟩

theorem Contracted.named {order : StrategyOrder} (contracted : Contracted order) :
    strip order.symbol ≠ "" := by
  obtain ⟨record, inferenceAt, made⟩ := contracted
  obtain ⟨filled, symbol⟩ := fromRecord_symbol made
  rw [symbol]
  exact strip_strip_ne_empty filled

/-- An ex-date withholds no more than the cash it finds and credits. -/
def exDateSolvent (day : Nat) (bars : Symbol → Option Bar) (events : Symbol → Distribution)
    (b : DailyBroker) (entry : Symbol × Position) : Bool :=
  match bars entry.1 with
  | none => true
  | some bar =>
    match exDateOf b.profile.dividendTax entry.1 day (released entry.2) bar (events entry.1) with
    | .ok (some ex) => decide (ex.withheld ≤ b.cash + ex.credit)
    | _ => true

/-- Every ex-date of an opening does. -/
def openingSolvent (day : Nat) (bars : Symbol → Option Bar) (events : Symbol → Distribution) :
    DailyBroker → List (Symbol × Position) → Bool
  | _, [] => true
  | b, entry :: rest =>
    exDateSolvent day bars events b entry &&
      match openPosition day bars events b entry with
      | .ok b' => openingSolvent day bars events b' rest
      | .error _ => true

/-- A fill costs no more than the cash: a buy's notional and fee, unless they are refused;
    a sale's fee, duty and tax beyond what it brings in. -/
def fillSolvent (b : DailyBroker) (order : StrategyOrder) (p : ℚ) : Bool :=
  let notional := p * order.quantity
  match b.currentDay with
  | none => true
  | some day =>
    match order.action with
    | .buy =>
      let cost := notional + b.profile.tradeFee notional
      decide (cost ≤ b.cash ∨ b.cash + 1 / 1000000000 < cost)
    | .sell =>
      match b.saleLots order.symbol day order.quantity with
      | .error _ => true
      | .ok (tax, _) =>
        decide (b.profile.tradeFee notional + b.profile.stampDutyOnSale notional day + tax ≤
          b.cash + notional)

/-- An operation that leaves an account without debt in no debt. -/
def BrokerOp.solvent (b : DailyBroker) : BrokerOp → Bool
  | .openDay day bars events =>
    b.currentDay = some day ||
      openingSolvent day bars events { b with currentDay := some day } b.positions.entries
  | .mark _ _ => true
  | .execute order bar _ rawPrice =>
    match b.rejectReason order bar rawPrice, bar, price rawPrice with
    | none, some bar, some base =>
      match fillPriceOf b.profile order bar base with
      | .ok p => fillSolvent b order p
      | .error _ => true
    | _, _, _ => true

/-- Every operation of a run does. -/
def solventRun : BrokerRun → List BrokerOp → Bool
  | _, [] => true
  | s, op :: rest =>
    op.solvent s.broker &&
      match s.step op with
      | .ok s' => solventRun s' rest
      | .error _ => true

namespace DailyBroker

variable {b b' : DailyBroker} {events : Symbol → Distribution} {bars : Symbol → Option Bar}

theorem openPosition_solvent {day : Nat} {entry : Symbol × Position} (cash : 0 ≤ b.cash)
    (solvent : exDateSolvent day bars events b entry = true)
    (h : openPosition day bars events b entry = .ok b') : 0 ≤ b'.cash := by
  rcases openPosition_cases h with rfl | ⟨bar, ex, lots, found, effect, -, rfl⟩
  · exact cash
  · unfold exDateSolvent at solvent
    simp only [found, effect, decide_eq_true_eq] at solvent
    show 0 ≤ b.cash + (ex.credit - ex.withheld)
    linarith

theorem openDay_solvent {day : Nat} (cash : 0 ≤ b.cash)
    (solvent : BrokerOp.solvent b (.openDay day bars events) = true)
    (h : b.openDay day bars events = .ok b') : 0 ≤ b'.cash := by
  simp only [BrokerOp.solvent, Bool.or_eq_true, decide_eq_true_eq] at solvent
  unfold openDay at h
  by_cases today : b.currentDay = some day
  · rw [if_pos today] at h
    exact Except.ok.inj h ▸ cash
  rw [if_neg today] at h
  have passes := solvent.resolve_left today
  have loop : ∀ (entries : List (Symbol × Position)) (c : DailyBroker), 0 ≤ c.cash →
      openingSolvent day bars events c entries = true →
      entries.foldlM (openPosition day bars events) c = .ok b' → 0 ≤ b'.cash := by
    intro entries
    induction entries with
    | nil =>
      intro c cash _ run
      exact (foldlM_nil _ c b').mp run ▸ cash
    | cons entry rest ih =>
      intro c cash solvent run
      obtain ⟨d, first, later⟩ := foldlM_cons_eq_ok.mp run
      simp only [openingSolvent, first, Bool.and_eq_true] at solvent
      exact ih d (openPosition_solvent cash solvent.1 first) solvent.2 later
  exact loop b.positions.entries { b with currentDay := some day } cash passes h

variable {order : StrategyOrder} {matchedAt : Instant} {e : Execution}

theorem fillAt_solvent {p : ℚ} (cash : 0 ≤ b.cash) (h : b.fillAt order matchedAt p = .ok (b', e)) :
    0 ≤ b'.cash ↔ fillSolvent b order p = true := by
  obtain ⟨day, commission, stampDuty, opened, fees, cases⟩ := fillAt_cases h
  obtain ⟨rfl, rfl⟩ := Prod.mk.inj (BrokerProfile.fees_eq_ok fees).2
  unfold fillSolvent
  simp only [opened]
  rcases cases with ⟨isBuy, refused, left⟩ | ⟨bought, isBuy, made, left⟩ |
    ⟨sold, tax, realized, isSell, made, left⟩
  · obtain ⟨rfl, -⟩ := Prod.mk.inj left
    have short : b'.cash + 1 / 1000000000 <
        p * order.quantity + b'.profile.tradeFee (p * order.quantity) := by
      by_contra covers
      unfold buy at refused
      rw [if_neg covers] at refused
      cases refused
    simp only [isBuy, decide_eq_true_eq]
    exact ⟨fun _ => .inr short, fun _ => cash⟩
  · obtain ⟨rfl, -⟩ := Prod.mk.inj left
    obtain ⟨tolerated, rfl⟩ := buy_eq_some made
    simp only [isBuy, decide_eq_true_eq, sub_nonneg]
    constructor
    · exact .inl
    · intro covers
      exact covers.resolve_right (not_lt.mpr tolerated)
  · obtain ⟨rfl, -⟩ := Prod.mk.inj left
    obtain ⟨position, lots, -, released, -, rfl⟩ := sell_eq_ok made
    simp only [isSell, released, if_true, decide_eq_true_eq]
    show 0 ≤ b.cash + (_ - _ - _ - tax) ↔ _
    constructor <;> intro covers <;> linarith

theorem execute_solvent {bar : Option Bar} {rawPrice : Option ℚ} (cash : 0 ≤ b.cash)
    (h : b.execute order bar matchedAt rawPrice = .ok (b', e)) :
    0 ≤ b'.cash ↔ BrokerOp.solvent b (.execute order bar matchedAt rawPrice) = true := by
  unfold execute at h
  unfold BrokerOp.solvent
  split at h
  · rename_i reason refused
    obtain ⟨rfl, -⟩ := Prod.mk.inj (Except.ok.inj h)
    simp [refused, cash]
  · rename_i dayBar base priced accepted
    simp only [accepted, priced]
    split at h
    · rename_i reason refused
      obtain ⟨rfl, -⟩ := Prod.mk.inj (Except.ok.inj h)
      simp [refused, cash]
    · rename_i p reached
      simp only [reached]
      exact fillAt_solvent cash h
  · rename_i accepted unpriced
    obtain ⟨rfl, -⟩ := Prod.mk.inj (Except.ok.inj h)
    simp only [cash, true_iff]
    split <;> simp_all

/-- Every name of an account is one a snapshot takes. -/
def Named (b : DailyBroker) : Prop := ∀ symbol ∈ b.positions.keys, strip symbol ≠ ""

theorem named_set {b : DailyBroker} (named : Named b) {symbol : Symbol} (filled : strip symbol ≠ "")
    (p : Position) : ∀ name ∈ (b.positions.set symbol p).keys, strip name ≠ "" := by
  intro name member
  rcases Dict.mem_keys_set.mp member with rfl | old
  · exact filled
  · exact named name old

theorem openDay_named {day : Nat} (named : Named b) (h : b.openDay day bars events = .ok b') :
    Named b' := by
  refine openDay_invariant (P := Named) (fun _ named => named) ?_ h named
  intro c c' symbol position named found step
  have filled := named symbol (Dict.mem_keys_iff.mpr ⟨position, found⟩)
  rcases openPosition_cases step with rfl | ⟨bar, ex, lots, -, -, -, rfl⟩
  · exact named_set named filled _
  · exact named_set named filled _

theorem execute_named {bar : Option Bar} {rawPrice : Option ℚ} (named : Named b)
    (contracted : Contracted order) (h : b.execute order bar matchedAt rawPrice = .ok (b', e)) :
    Named b' := by
  rcases execute_cases h with ⟨reason, left⟩ | ⟨_, _, _, -, -, -, -, filled⟩
  · exact (Prod.mk.inj left).1 ▸ named
  obtain ⟨day, commission, stampDuty, -, -, cases⟩ := fillAt_cases filled
  rcases cases with ⟨-, -, left⟩ | ⟨bought, -, made, left⟩ | ⟨sold, tax, realized, -, made, left⟩
  · exact (Prod.mk.inj left).1 ▸ named
  · obtain ⟨rfl, -⟩ := Prod.mk.inj left
    obtain ⟨-, rfl⟩ := buy_eq_some made
    exact named_set named contracted.named _
  · obtain ⟨rfl, -⟩ := Prod.mk.inj left
    obtain ⟨position, lots, found, -, -, rfl⟩ := sell_eq_ok made
    unfold withPosition
    split
    · intro name member
      obtain ⟨p, inside⟩ := Dict.mem_keys_iff.mp member
      simp only [Dict.get?_erase] at inside
      split_ifs at inside
      exact named name (Dict.mem_keys_iff.mpr ⟨p, inside⟩)
    · exact named_set named contracted.named _

theorem acceptsSnapshot_of {b : DailyBroker} (cash : 0 ≤ b.cash)
    (held : ∀ symbol p, b.positions.get? symbol = some p → 0 ≤ p.quantity) (named : Named b) :
    acceptsSnapshot b.accountSnapshot = true := by
  unfold acceptsSnapshot accountSnapshot
  rw [Bool.and_eq_true, decide_eq_true_eq, List.all_map, List.all_eq_true]
  refine ⟨cash, fun entry member => ?_⟩
  have listed : entry ∈ b.positions.entries := (List.perm_insertionSort _ _).mem_iff.mp member
  have found := Dict.mem_entries_iff.mp listed
  simp [held _ _ found, named _ (Dict.mem_keys_iff.mpr ⟨_, found⟩)]

end DailyBroker

variable {s s' : BrokerRun}

theorem BrokerRun.step_solvent {op : BrokerOp} (cash : 0 ≤ s.broker.cash)
    (solvent : op.solvent s.broker = true) (h : s.step op = .ok s') : 0 ≤ s'.broker.cash := by
  cases op with
  | openDay day bars events =>
    obtain ⟨b, opens, rfl⟩ := except_map_eq_ok.mp h
    exact openDay_solvent cash solvent opens
  | mark field bars =>
    obtain rfl := Except.ok.inj h
    exact cash
  | execute order bar matchedAt rawPrice =>
    obtain ⟨⟨b, e⟩, executes, rfl⟩ := except_map_eq_ok.mp h
    exact (execute_solvent cash executes).mpr solvent

/-- The order of an operation, if it is one, was made by the contract. -/
def BrokerOp.contracted : BrokerOp → Prop
  | .execute order _ _ _ => Contracted order
  | _ => True

theorem BrokerRun.step_named {op : BrokerOp} (named : Named s.broker) (contracted : op.contracted)
    (h : s.step op = .ok s') : Named s'.broker := by
  cases op with
  | openDay day bars events =>
    obtain ⟨b, opens, rfl⟩ := except_map_eq_ok.mp h
    exact openDay_named named opens
  | mark field bars =>
    obtain rfl := Except.ok.inj h
    intro name member
    refine named name ?_
    obtain ⟨p, inside⟩ := Dict.mem_keys_iff.mp member
    rw [markBy, Dict.get?_mapValues, Option.map_eq_some_iff] at inside
    obtain ⟨held, found, -⟩ := inside
    exact Dict.mem_keys_iff.mpr ⟨held, found⟩
  | execute order bar matchedAt rawPrice =>
    obtain ⟨⟨b, e⟩, executes, rfl⟩ := except_map_eq_ok.mp h
    exact execute_named named contracted executes

theorem solventRun_cash {ops : List BrokerOp} (cash : 0 ≤ s.broker.cash)
    (solvent : solventRun s ops = true) (run : ops.foldlM BrokerRun.step s = .ok s') :
    0 ≤ s'.broker.cash := by
  induction ops generalizing s with
  | nil => exact (foldlM_nil _ s s').mp run ▸ cash
  | cons op rest ih =>
    obtain ⟨t, first, later⟩ := foldlM_cons_eq_ok.mp run
    simp only [solventRun, first, Bool.and_eq_true] at solvent
    exact ih (BrokerRun.step_solvent cash solvent.1 first) solvent.2 later

theorem levelTrade_contracted (action : OrderAction) (quantity : Int) (day : Nat) (preClose : ℚ)
    (positive : 0 < quantity) : (levelTrade action quantity day preClose positive).contracted := by
  have symbol : strip "600000.SH" = "600000.SH" := by decide
  let record : OrderRecord :=
    { symbol := "600000.SH", action, quantity, executeAt := Instant.atMinute day 570 Instant.open_lt,
      metadata := [], session := none, limitPrice := none }
  show ∃ record inferenceAt, StrategyOrder.fromRecord record inferenceAt = .ok _
  refine ⟨record, record.executeAt, ?_⟩
  simp [record, StrategyOrder.fromRecord, symbol, positive, pure, Except.pure, bind, Except.bind]

/-- Half a yuan a share, then a price reset that adds an odd lot of eleven, and its sale
    for less than the least commission. -/
def oddTailRun : List BrokerOp :=
  [.openDay 20240102 (fun _ => some (levelBar (1 / 2))) fun _ => {},
    levelTrade .buy 100 20240102 (1 / 2) roundLot_pos,
    .openDay 20240103 (fun _ => some (levelBar (45 / 100))) fun _ => {},
    .openDay 20240104 (fun _ => some (levelBar (45 / 100))) fun _ => {},
    levelTrade .sell 11 20240104 (45 / 100) (by decide)]

end AutoTrade
