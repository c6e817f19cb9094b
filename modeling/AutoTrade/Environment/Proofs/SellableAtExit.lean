import AutoTrade.Environment.Proofs.HeldLot
import AutoTrade.Environment.Replay.NullControl

/-!
# What a lot offers at its exit

The null control resizes a lot by the resets of its name alone, each read against the latest
usable close before it. The broker carries a price of its own: the fill's, then every close it is
marked at, and the `pre_close` of a reset until the next. Where each of those meets a usable close
the two prices are one, and so are the shares.
-/

namespace AutoTrade

open DailyBroker

/-- An order met on the market. -/
structure Trade where
  order : StrategyOrder
  bar : Option Bar
  matchedAt : Instant
  rawPrice : Option ℚ

namespace DailyBroker

variable (market : DailyMarketData)

def trade (b : DailyBroker) (t : Trade) : Except BrokerError DailyBroker :=
  (b.execute t.order t.bar t.matchedAt t.rawPrice).map Prod.fst

/-- A day passed: it opens, trades, and is marked at its closes. -/
def passDay (b : DailyBroker) (next : Nat × List Trade) : Except BrokerError DailyBroker := do
  let opened ← b.openDay next.1 (market.bars next.1) (market.distributions next.1)
  let traded ← next.2.foldlM trade opened
  return traded.mark (market.bars next.1)

/-- The days passed from the end of an entry's day to the opening of its exit's. -/
def holdToExit (b : DailyBroker) (days : List (Nat × List Trade)) (exit : Nat) :
    Except BrokerError DailyBroker := do
  let held ← days.foldlM (passDay market) b
  held.openDay exit (market.bars exit) (market.distributions exit)

theorem trades_get?_of_ne {b b' : DailyBroker} {trades : List Trade} {symbol : Symbol}
    (others : ∀ t ∈ trades, t.order.symbol ≠ symbol) (run : trades.foldlM trade b = .ok b') :
    b'.positions.get? symbol = b.positions.get? symbol ∧ b'.currentDay = b.currentDay := by
  refine foldlM_invariant (P := fun c => c.positions.get? symbol = b.positions.get? symbol ∧
    c.currentDay = b.currentDay) ?_ run ⟨rfl, rfl⟩
  intro t member c c' step same
  obtain ⟨⟨left, e⟩, executed, rfl⟩ := except_map_eq_ok.mp step
  exact ⟨(execute_get?_of_ne executed (others t member)).trans same.1,
    (execute_frame executed).currentDay_eq.trans same.2⟩

/-- The price a holding is marked at. -/
def markPrice (bar : Option Bar) (last : ℚ) : ℚ := (bar.bind fun bar => price bar.close).getD last

theorem mark_get? {b : DailyBroker} {bars : Symbol → Option Bar} {symbol : Symbol} {p : Position}
    (held : b.positions.get? symbol = some p) : (b.mark bars).positions.get? symbol =
      some { p with lastPrice := markPrice (bars symbol) p.lastPrice } := by
  rw [mark, Dict.get?_mapValues, held, Option.map_some, markPosition, markPrice]
  cases bars symbol with
  | none => rfl
  | some bar => cases closes : price bar.close <;> simp [closes]

theorem passDay_holding {b b' : DailyBroker} {next : Nat × List Trade} {symbol : Symbol}
    {p : Position} (new : b.currentDay ≠ some next.1)
    (others : ∀ t ∈ next.2, t.order.symbol ≠ symbol) (held : b.positions.get? symbol = some p)
    (run : b.passDay market next = .ok b') :
    b'.currentDay = some next.1 ∧ ∃ opened after,
      OpenedOn (market.cashDividends next.1 symbol) p opened (market.bars next.1 symbol) ∧
      b'.positions.get? symbol = some after ∧ after.quantity = opened.quantity ∧
      after.lastPrice = markPrice (market.bars next.1 symbol) opened.lastPrice := by
  obtain ⟨opened, opens, run⟩ := bind_eq_ok.mp run
  obtain ⟨traded, trades, run⟩ := bind_eq_ok.mp run
  obtain rfl := Except.ok.inj run
  obtain ⟨after, found, made⟩ := openDay_openedOn new opens held
  obtain ⟨same, today⟩ := trades_get?_of_ne others trades
  refine ⟨today.trans (openDay_spec opens).2.1, after, _, made, mark_get? (same.trans found), ?_⟩
  exact ⟨rfl, rfl⟩

end DailyBroker

namespace NullControl

namespace Universe

variable {frame : Universe} {market : DailyMarketData} {trip : RoundTrip} {symbol : Symbol}
  {cash : Nat → Symbol → ℚ}

/-- The reset a row is read as, after the last usable close before it. -/
def resetOf (last : Option ℚ) (row : FrameRow) : Option (Nat × ℚ × ℚ) :=
  match last, price row.preClose with
  | some last, some preClose =>
    if preClose ≠ last then some (row.tradeDate, last, preClose) else none
  | _, _ => none

/-- One row of a name, with the last usable close and the shares of the lot. -/
def settleRow (trip : RoundTrip) (symbol : Symbol) (cash : Nat → Symbol → ℚ)
    (state : Option ℚ × Int) (row : FrameRow) : Except NullError (Option ℚ × Int) :=
  ((resetOf state.1 row).elim (.ok state.2) (settleReset trip symbol cash state.2)).map fun held =>
    ((price row.close).orElse fun _ => state.1, held)

theorem resetsFrom_cons (last : Option ℚ) (row : FrameRow) (rows : List FrameRow) :
    resetsFrom last (row :: rows) =
      (resetOf last row).toList ++ resetsFrom ((price row.close).orElse fun _ => last) rows := by
  cases last with
  | none => simp [resetsFrom, resetOf]
  | some last =>
    cases quoted : price row.preClose with
    | none => simp [resetsFrom, resetOf, quoted]
    | some preClose =>
      by_cases same : preClose = last <;> simp [resetsFrom, resetOf, quoted, same]

theorem foldlM_resetsFrom (last : Option ℚ) (held : Int) (rows : List FrameRow) :
    (resetsFrom last rows).foldlM (settleReset trip symbol cash) held =
      (rows.foldlM (settleRow trip symbol cash) (last, held)).map Prod.snd := by
  induction rows generalizing last held with
  | nil => rfl
  | cons row rows ih =>
    rw [resetsFrom_cons, List.foldlM_cons, settleRow]
    cases resetOf last row with
    | none => exact ih _ held
    | some reset =>
      simp only [Option.toList_some, List.singleton_append, List.foldlM_cons, Option.elim_some]
      cases settleReset trip symbol cash held reset with
      | error e => rfl
      | ok held' => exact ih _ held'

theorem settleRow_outside {state : Option ℚ × Int} {row : FrameRow}
    (outside : ∀ exit, trip.exitDate = some exit →
      ¬ (trip.entryDate < row.tradeDate ∧ row.tradeDate ≤ exit)) :
    settleRow trip symbol cash state row =
      .ok ((price row.close).orElse fun _ => state.1, state.2) := by
  rw [settleRow]
  cases read : resetOf state.1 row with
  | none => rfl
  | some reset =>
    have dated : reset.1 = row.tradeDate := by
      unfold resetOf at read
      split at read
      · split_ifs at read
        rw [← Option.some.inj read]
      · cases read
    rw [Option.elim_some, settleReset]
    cases left : trip.exitDate with
    | none => rfl
    | some exit =>
      simp only [dated, if_neg (outside exit left)]
      rfl

/-- The last usable close of a run of rows, or the one before them. -/
def lastClose (last : Option ℚ) (rows : List FrameRow) : Option ℚ :=
  rows.foldl (fun last row => (price row.close).orElse fun _ => last) last

theorem settleRows_outside {last : Option ℚ} {held : Int} {rows : List FrameRow}
    (outside : ∀ row ∈ rows, ∀ exit, trip.exitDate = some exit →
      ¬ (trip.entryDate < row.tradeDate ∧ row.tradeDate ≤ exit)) :
    rows.foldlM (settleRow trip symbol cash) (last, held) = .ok (lastClose last rows, held) := by
  induction rows generalizing last with
  | nil => rfl
  | cons row rows ih =>
    obtain ⟨here, later⟩ := List.forall_mem_cons.mp outside
    rw [List.foldlM_cons, settleRow_outside here]
    exact ih later

theorem priceReset_self (last : ℚ) : priceReset last last = false := by
  norm_num [priceReset, round6, roundHalfEven, quoteHalfTick]

theorem settleRow_opened {p after : Position} {bar : Bar} {row : FrameRow} {exit : Nat}
    (opened : OpenedOn (cash row.tradeDate symbol) p after (some bar))
    (quotes : bar.preClose = row.preClose) (left : trip.exitDate = some exit)
    (within : trip.entryDate < row.tradeDate ∧ row.tradeDate ≤ exit) :
    settleRow trip symbol cash (some p.lastPrice, p.quantity) row =
      .ok ((price row.close).orElse fun _ => some p.lastPrice,
        if row.tradeDate = exit then after.availableQuantity else after.quantity) := by
  cases opened with
  | @bar _ preClose ratio quoted applies quantity available last =>
    rw [quotes] at quoted
    have read : resetOf (some p.lastPrice) row = if preClose ≠ p.lastPrice then
        some (row.tradeDate, p.lastPrice, preClose) else none := by
      simp only [resetOf, quoted]
    rw [settleRow, read]
    by_cases same : preClose = p.lastPrice
    · have level : ratio = none := by
        rw [same, exDateShareMultiplier, priceReset_self] at applies
        simpa using applies.symm
      subst level
      simp only [Option.elim_none] at quantity
      rw [if_neg (by simpa using same), available, quantity, min_self, ite_self]
      rfl
    · rw [if_pos same, Option.elim_some, settleReset]
      simp only [left, if_pos within, applies]
      cases ratio with
      | none =>
        simp only [Option.elim_none] at quantity
        rw [available, quantity, min_self, ite_self]
        rfl
      | some r =>
        simp only [Option.elim_some] at quantity
        rw [available, quantity]
        rfl

/-- Whether a row that resets the price of a holding has a close to mark it at. -/
def resetMarked (last : ℚ) (row : FrameRow) : Bool :=
  (price row.close).isSome || (price row.preClose).all fun preClose => !priceReset last preClose

/-- Whether every row that resets the price, and has a later row, marks it. -/
def closesMarked : ℚ → List FrameRow → Bool
  | _, [] => true
  | last, row :: rows =>
    rows.isEmpty || resetMarked last row && closesMarked ((price row.close).getD last) rows

/-- A market's bars are the rows of a frame. -/
structure Quotes (frame : Universe) (market : DailyMarketData) : Prop where
  bar_of_row : ∀ row ∈ frame.rows, ∃ bar, market.bars row.tradeDate row.symbol = some bar ∧
    bar.preClose = row.preClose ∧ bar.close = row.close
  row_of_bar : ∀ day symbol bar, market.bars day symbol = some bar →
    ∃ row ∈ frame.rows, row.symbol = symbol ∧ row.tradeDate = day

/-- The rows of a name after a day, up to an exit, and the days the broker opens on the way. -/
structure Meets (frame : Universe) (symbol : Symbol) (exit current : Nat) (days : List Nat)
    (rows : List FrameRow) : Prop where
  mem : ∀ row ∈ rows, row ∈ frame.rows ∧ row.symbol = symbol
  between : ∀ row ∈ rows, current < row.tradeDate ∧ row.tradeDate ≤ exit
  complete : ∀ row ∈ frame.rows, row.symbol = symbol →
    current < row.tradeDate → row.tradeDate ≤ exit → row ∈ rows
  sorted : rows.Pairwise fun a b => a.tradeDate < b.tradeDate
  days_after : ∀ day ∈ days, current < day
  days_sorted : days.Pairwise (· < ·)
  days_before : ∀ day ∈ days, day ≤ exit
  covered : ∀ row ∈ rows, row.tradeDate ∈ days

namespace Meets

variable {exit current day : Nat} {days : List Nat} {rows : List FrameRow}

theorem skip (meets : Meets frame symbol exit current (day :: days) rows)
    (quotes : Quotes frame market) (none : market.bars day symbol = none) :
    Meets frame symbol exit day days rows := by
  obtain ⟨after, rest⟩ := List.pairwise_cons.mp meets.days_sorted
  obtain ⟨here, days_before⟩ := List.forall_mem_cons.mp meets.days_before
  have now := (List.forall_mem_cons.mp meets.days_after).1
  have absent : ∀ row ∈ rows, row.tradeDate ≠ day := by
    intro row member same
    obtain ⟨inside, mine⟩ := meets.mem row member
    obtain ⟨bar, quoted, -⟩ := quotes.bar_of_row row inside
    rw [same, mine, none] at quoted
    cases quoted
  have covered : ∀ row ∈ rows, row.tradeDate ∈ days := by
    intro row member
    exact (List.mem_cons.mp (meets.covered row member)).resolve_left (absent row member)
  refine ⟨meets.mem, ?_, ?_, meets.sorted, after, rest, days_before, covered⟩
  · intro row member
    exact ⟨after _ (covered row member), (meets.between row member).2⟩
  · intro row inside mine later
    exact meets.complete row inside mine (now.trans later)

theorem row (meets : Meets frame symbol exit current (day :: days) rows)
    (quotes : Quotes frame market) {bar : Bar} (quoted : market.bars day symbol = some bar) :
    ∃ row rows', rows = row :: rows' ∧ row.tradeDate = day ∧ bar.preClose = row.preClose ∧
      bar.close = row.close ∧ Meets frame symbol exit day days rows' := by
  obtain ⟨after, rest⟩ := List.pairwise_cons.mp meets.days_sorted
  obtain ⟨here, days_before⟩ := List.forall_mem_cons.mp meets.days_before
  have now := (List.forall_mem_cons.mp meets.days_after).1
  obtain ⟨found, inside, mine, dated⟩ := quotes.row_of_bar day symbol bar quoted
  have member := meets.complete found inside mine (dated ▸ now) (dated ▸ here)
  cases rows with
  | nil => cases member
  | cons row rows =>
    obtain ⟨first, sorted⟩ := List.pairwise_cons.mp meets.sorted
    have least : day ≤ row.tradeDate := by
      rcases List.mem_cons.mp (meets.covered row List.mem_cons_self) with same | later
      · exact same.ge
      · exact (after _ later).le
    have same : row = found := by
      rcases List.mem_cons.mp member with same | behind
      · exact same.symm
      · have earlier := first found behind
        omega
    subst same
    obtain ⟨bar', quoted', preClose, close⟩ := quotes.bar_of_row row inside
    rw [dated, mine, quoted] at quoted'
    obtain rfl := Option.some.inj quoted'
    refine ⟨row, rows, rfl, dated, preClose, close, ?_⟩
    have later : ∀ other ∈ rows, day < other.tradeDate := fun other behind =>
      dated ▸ first other behind
    refine ⟨?_, ?_, ?_, sorted, after, rest, days_before, ?_⟩
    · exact fun other behind => meets.mem other (List.mem_cons_of_mem _ behind)
    · intro other behind
      exact ⟨later other behind, (meets.between other (List.mem_cons_of_mem _ behind)).2⟩
    · intro other inside' mine' since until'
      rcases List.mem_cons.mp (meets.complete other inside' mine' (now.trans since) until') with
        same | behind
      · rw [same, dated] at since
        exact absurd since (lt_irrefl _)
      · exact behind
    · intro other behind
      have listed := meets.covered other (List.mem_cons_of_mem _ behind)
      exact (List.mem_cons.mp listed).resolve_left (later other behind).ne'

theorem nil (meets : Meets frame symbol exit current [] rows) : rows = [] :=
  List.eq_nil_iff_forall_not_mem.mpr fun row member => nomatch meets.covered row member

end Meets

theorem carried_eq {day : Nat} {p after : Position} {bar : Bar} {row : FrameRow}
    (opened : OpenedOn (cash day symbol) p after (some bar))
    (preClose : bar.preClose = row.preClose) (close : bar.close = row.close)
    (marks : resetMarked p.lastPrice row = true) :
    markPrice (some bar) after.lastPrice = (price row.close).getD p.lastPrice := by
  cases opened with
  | @bar _ pre ratio quoted applies quantity available last =>
    rw [markPrice, Option.bind_some, close, last]
    cases closes : price row.close with
    | some c => rfl
    | none =>
      rw [preClose] at quoted
      have level : priceReset p.lastPrice pre = false := by
        simpa [resetMarked, closes, quoted] using marks
      simp [resetPrice, level]

theorem settles_held {exit current : Nat} {days : List (Nat × List Trade)} {rows : List FrameRow}
    {b b' : DailyBroker} {p : Position} {last : Option ℚ} (quotes : Quotes frame market)
    (left : trip.exitDate = some exit) (entered : trip.entryDate ≤ current)
    (others : ∀ next ∈ days, ∀ t ∈ next.2, t.order.symbol ≠ symbol)
    (today : b.currentDay = some current) (held : b.positions.get? symbol = some p)
    (meets : Meets frame symbol exit current (days.map Prod.fst ++ [exit]) rows)
    (before : ∀ next ∈ days, next.1 < exit)
    (marked : rows ≠ [] → last = some p.lastPrice ∧ closesMarked p.lastPrice rows = true)
    (run : b.holdToExit market days exit = .ok b') :
    ∃ last', rows.foldlM (settleRow trip symbol market.cashDividends) (last, p.quantity) =
      .ok (last', b'.offered symbol) := by
  induction days generalizing current rows b p last with
  | nil =>
    obtain ⟨b₀, same, opens⟩ := bind_eq_ok.mp run
    obtain rfl := (foldlM_nil _ b b₀).mp same
    have new : b.currentDay ≠ some exit := by
      rw [today]
      intro same
      exact absurd (Option.some.inj same) (meets.days_after exit (by simp)).ne
    obtain ⟨after, found, made⟩ : ∃ after, b'.positions.get? symbol = some after ∧
        OpenedOn (market.cashDividends exit symbol) p after (market.bars exit symbol) :=
      openDay_openedOn new opens held
    have offered : b'.offered symbol = after.availableQuantity := by
      rw [DailyBroker.offered, found]
      rfl
    cases quoted : market.bars exit symbol with
    | none =>
      obtain rfl := (meets.skip quotes quoted).nil
      rw [quoted] at made
      cases made with
      | noBar _ available _ => exact ⟨last, by rw [offered, available]; rfl⟩
    | some bar =>
      obtain ⟨row, rows', rfl, dated, preClose, -, meets'⟩ := meets.row quotes quoted
      obtain rfl := meets'.nil
      obtain ⟨rfl, -⟩ := marked (by simp)
      rw [quoted, ← dated] at made
      have within := meets.between row (by simp)
      have settles := settleRow_opened made preClose left ⟨entered.trans_lt within.1, within.2⟩
      rw [if_pos dated] at settles
      exact ⟨_, by rw [List.foldlM_cons, settles, offered]; rfl⟩
  | cons next days ih =>
    obtain ⟨bLast, passes, opens⟩ := bind_eq_ok.mp run
    obtain ⟨b₁, pass, rest⟩ := foldlM_cons_eq_ok.mp passes
    have run' : b₁.holdToExit market days exit = .ok b' := bind_eq_ok.mpr ⟨bLast, rest, opens⟩
    obtain ⟨othersHere, othersLater⟩ := List.forall_mem_cons.mp others
    obtain ⟨beforeHere, beforeLater⟩ := List.forall_mem_cons.mp before
    have now : current < next.1 := meets.days_after next.1 (by simp)
    have new : b.currentDay ≠ some next.1 := by
      rw [today]
      exact fun same => absurd (Option.some.inj same) now.ne
    obtain ⟨today', opened, after, made, held', kept, last'⟩ :=
      passDay_holding market new othersHere held pass
    have later := @ih next.1
    cases quoted : market.bars next.1 symbol with
    | none =>
      rw [quoted] at made last'
      cases made with
      | noBar quantity _ carried =>
        have price' : after.lastPrice = p.lastPrice := last'.trans carried
        rw [← quantity, ← kept]
        exact later (entered.trans now.le) othersLater today' held' (meets.skip quotes quoted)
          beforeLater (by rwa [price']) run'
    | some bar =>
      obtain ⟨row, rows', rfl, dated, preClose, close, meets'⟩ := meets.row quotes quoted
      obtain ⟨rfl, marks⟩ := marked (by simp)
      rw [quoted] at made last'
      rw [← dated] at made
      have within := meets.between row (by simp)
      have settles := settleRow_opened made preClose left ⟨entered.trans_lt within.1, within.2⟩
      rw [if_neg (dated ▸ beforeHere.ne)] at settles
      rw [List.foldlM_cons, settles, ← kept]
      refine later (entered.trans now.le) othersLater today' held' meets' beforeLater ?_ run'
      intro more
      rw [closesMarked, List.isEmpty_eq_false_iff.mpr more, Bool.false_or,
        Bool.and_eq_true] at marks
      rw [last', carried_eq made preClose close marks.1]
      exact ⟨by cases price row.close <;> rfl, marks.2⟩

/-- A lot bought at the entry of a trip, whose name the account did not hold, and left untouched
to the opening of its exit; the account trades what it likes beside it. -/
structure HeldLot (market : DailyMarketData) where
  trip : RoundTrip
  exit : Nat
  exits : trip.exitDate = some exit
  later : trip.entryDate < exit
  order : StrategyOrder
  buys : order.action = .buy
  before : DailyBroker
  today : before.currentDay = some trip.entryDate
  unheld : before.positions.get? order.symbol = none
  matchedAt : Instant
  rawPrice : Option ℚ
  bought : DailyBroker
  execution : Execution
  fills : before.execute order (market.bars trip.entryDate order.symbol) matchedAt rawPrice =
    .ok (bought, execution)
  filled : execution.status = .filled
  rest : List Trade
  days : List (Nat × List Trade)
  others : ∀ trades ∈ rest :: days.map Prod.snd, ∀ t ∈ trades, t.order.symbol ≠ order.symbol
  passed : days.map Prod.fst = market.tradeDates.filter fun d => trip.entryDate < d ∧ d < exit
  left : DailyBroker
  run : (do
    let traded ← rest.foldlM trade bought
    (traded.mark (market.bars trip.entryDate)).holdToExit market days exit) = .ok left

/-- Whether the first row and each reset of the price have a usable close before a later row. -/
def rowsMarked : List FrameRow → Bool
  | [] => true
  | row :: rows => rows.isEmpty || (price row.close).any fun close => closesMarked close rows

/-- Whether the rows of a name from an entry to an exit mark every price the broker carries. -/
def MarkedToExit (frame : Universe) (symbol : Symbol) (entry exit : Nat) : Prop :=
  rowsMarked ((frame.rowsOf symbol).filter fun row =>
    entry ≤ row.tradeDate ∧ row.tradeDate ≤ exit) = true

instance (frame : Universe) (symbol : Symbol) (entry exit : Nat) :
    Decidable (frame.MarkedToExit symbol entry exit) := inferInstanceAs (Decidable (_ = true))

theorem bought_holding {b b' : DailyBroker} {order : StrategyOrder} {bar : Option Bar}
    {matchedAt : Instant} {rawPrice : Option ℚ} {e : Execution}
    (run : b.execute order bar matchedAt rawPrice = .ok (b', e)) (buys : order.action = .buy)
    (filled : e.status = .filled) (unheld : b.positions.get? order.symbol = none) :
    bar.isSome ∧ ∃ p, b'.positions.get? order.symbol = some p ∧ p.quantity = order.quantity := by
  rcases execute_cases run with ⟨reason, left⟩ | ⟨dayBar, base, p, -, quoted, -, -, fills⟩
  · rw [(Prod.mk.inj left).2] at filled
    cases filled
  · refine ⟨by simp [quoted], ?_⟩
    obtain ⟨day, commission, stampDuty, -, -, cases⟩ := fillAt_cases fills
    rcases cases with ⟨-, -, left⟩ | ⟨bought, -, made, left⟩ | ⟨sold, tax, realized, sells, -, left⟩
    · rw [(Prod.mk.inj left).2] at filled
      cases filled
    · rw [(Prod.mk.inj left).1]
      obtain ⟨-, rfl⟩ := buy_eq_some made
      refine ⟨_, Dict.get?_set_self _ _ _, ?_⟩
      rw [unheld]
      rfl
    · rw [buys] at sells
      cases sells

theorem mem_rowsOf {row : FrameRow} :
    row ∈ frame.rowsOf symbol ↔ row ∈ frame.rows ∧ row.symbol = symbol := by
  rw [rowsOf, (List.perm_insertionSort _ _).mem_iff, List.mem_filter, decide_eq_true_eq]

theorem rowsOf_sorted (frame : Universe) (symbol : Symbol) :
    (frame.rowsOf symbol).Pairwise fun a b => a.tradeDate < b.tradeDate := by
  have : Std.Total fun a b : FrameRow => a.tradeDate ≤ b.tradeDate := ⟨fun _ _ => le_total _ _⟩
  have : IsTrans FrameRow fun a b => a.tradeDate ≤ b.tradeDate := ⟨fun _ _ _ => le_trans⟩
  have sorted : (frame.rowsOf symbol).Pairwise fun a b => a.tradeDate ≤ b.tradeDate :=
    List.pairwise_insertionSort _ _
  have perm : (frame.rowsOf symbol).Perm (frame.rows.filter fun row => row.symbol = symbol) :=
    List.perm_insertionSort _ _
  have nodup := (perm.map fun row => (row.symbol, row.tradeDate)).nodup_iff.mpr
    (frame.distinct.sublist (List.filter_sublist.map _))
  have distinct := List.pairwise_map.mp nodup
  refine (sorted.and distinct).imp_of_mem ?_
  intro a b here there both
  refine lt_of_le_of_ne both.1 fun same => both.2 ?_
  rw [(mem_rowsOf.mp here).2, (mem_rowsOf.mp there).2, same]

theorem filter_append_filter_not {α : Type} {keeps : α → Bool} {l : List α}
    (down : l.Pairwise fun a b => keeps b = true → keeps a = true) :
    l.filter keeps ++ l.filter (fun a => !keeps a) = l := by
  induction l with
  | nil => rfl
  | cons a l ih =>
    obtain ⟨first, rest⟩ := List.pairwise_cons.mp down
    by_cases passes : keeps a = true
    · simp [passes, ih rest]
    · have none : l.filter keeps = [] := by
        rw [List.filter_eq_nil_iff]
        exact fun b member passes' => passes (first b member passes')
      have later := ih rest
      rw [none, List.nil_append] at later
      simp [passes, none, later]

theorem rowsOf_split (frame : Universe) (symbol : Symbol) (entry exit : Nat) :
    (frame.rowsOf symbol).filter (fun row => row.tradeDate < entry) ++
        ((frame.rowsOf symbol).filter (fun row => entry ≤ row.tradeDate ∧ row.tradeDate ≤ exit) ++
          (frame.rowsOf symbol).filter fun row => entry ≤ row.tradeDate ∧ exit < row.tradeDate) =
      frame.rowsOf symbol := by
  have sorted := rowsOf_sorted frame symbol
  have first := @filter_append_filter_not _ (fun row : FrameRow => decide (row.tradeDate < entry)) _
    (sorted.imp fun lt => by simpa using fun before => lt.trans before)
  have second := @filter_append_filter_not _ (fun row : FrameRow => decide (row.tradeDate ≤ exit)) _
    ((sorted.filter fun row => !decide (row.tradeDate < entry)).imp fun lt => by
      simpa using fun before => lt.le.trans before)
  rw [List.filter_filter, List.filter_filter] at second
  refine Eq.trans ?_ first
  rw [← second]
  congr 2 <;> refine List.filter_congr fun row _ => ?_ <;> rw [Bool.eq_iff_iff] <;> simp [and_comm]

theorem entry_row (quotes : Quotes frame market) {entry exit : Nat} {bar : Bar}
    (before : entry ≤ exit) (quoted : market.bars entry symbol = some bar) :
    ∃ row rows, (frame.rowsOf symbol).filter
        (fun row => entry ≤ row.tradeDate ∧ row.tradeDate ≤ exit) = row :: rows ∧
      row.tradeDate = entry ∧ bar.close = row.close ∧ ∀ later ∈ rows, entry < later.tradeDate := by
  obtain ⟨found, inside, mine, dated⟩ := quotes.row_of_bar entry symbol bar quoted
  obtain ⟨bar', quoted', -, close⟩ := quotes.bar_of_row found inside
  rw [dated, mine, quoted] at quoted'
  obtain rfl := Option.some.inj quoted'
  have sorted := (rowsOf_sorted frame symbol).filter
    fun row => decide (entry ≤ row.tradeDate ∧ row.tradeDate ≤ exit)
  have member : found ∈ (frame.rowsOf symbol).filter
      fun row => decide (entry ≤ row.tradeDate ∧ row.tradeDate ≤ exit) := by
    rw [List.mem_filter, mem_rowsOf]
    exact ⟨⟨inside, mine⟩, by simp [dated, before]⟩
  have since : ∀ row ∈ (frame.rowsOf symbol).filter
      fun row => decide (entry ≤ row.tradeDate ∧ row.tradeDate ≤ exit), entry ≤ row.tradeDate := by
    intro row inside
    simpa using (of_decide_eq_true (List.mem_filter.mp inside).2).1
  cases rows : (frame.rowsOf symbol).filter
      fun row => decide (entry ≤ row.tradeDate ∧ row.tradeDate ≤ exit) with
  | nil =>
    rw [rows] at member
    cases member
  | cons row rest =>
    rw [rows] at member sorted since
    obtain ⟨first, -⟩ := List.pairwise_cons.mp sorted
    have same : found = row := by
      rcases List.mem_cons.mp member with same | behind
      · exact same
      · have earlier := first found behind
        have least := since row List.mem_cons_self
        omega
    subst same
    exact ⟨found, rest, rfl, dated, close, fun later member => dated ▸ first later member⟩

theorem HeldLot.meets (quotes : Quotes frame market) (lot : HeldLot market) {row : FrameRow}
    {rows : List FrameRow} (split : ((frame.rowsOf lot.order.symbol).filter fun row =>
      lot.trip.entryDate ≤ row.tradeDate ∧ row.tradeDate ≤ lot.exit) = row :: rows)
    (dated : row.tradeDate = lot.trip.entryDate)
    (after : ∀ later ∈ rows, lot.trip.entryDate < later.tradeDate) :
    Meets frame lot.order.symbol lot.exit lot.trip.entryDate
      (lot.days.map Prod.fst ++ [lot.exit]) rows := by
  have member : ∀ later ∈ rows, later ∈ frame.rows ∧ later.symbol = lot.order.symbol ∧
      later.tradeDate ≤ lot.exit := by
    intro later inside
    have kept : later ∈ row :: rows := List.mem_cons_of_mem _ inside
    rw [← split, List.mem_filter, mem_rowsOf] at kept
    exact ⟨kept.1.1, kept.1.2, (of_decide_eq_true kept.2).2⟩
  have sorted := (rowsOf_sorted frame lot.order.symbol).filter
    fun row => decide (lot.trip.entryDate ≤ row.tradeDate ∧ row.tradeDate ≤ lot.exit)
  rw [split] at sorted
  have days : ∀ day, day ∈ lot.days.map Prod.fst ↔
      day ∈ market.tradeDates ∧ lot.trip.entryDate < day ∧ day < lot.exit := by
    intro day
    rw [lot.passed, List.mem_filter, decide_eq_true_eq]
  constructor
  · exact fun later inside => ⟨(member later inside).1, (member later inside).2.1⟩
  · exact fun later inside => ⟨after later inside, (member later inside).2.2⟩
  · intro later inside mine since until'
    have kept : later ∈ row :: rows := by
      rw [← split, List.mem_filter, mem_rowsOf]
      exact ⟨⟨inside, mine⟩, by simp [since.le, until']⟩
    refine (List.mem_cons.mp kept).resolve_left ?_
    rintro rfl
    exact absurd dated since.ne'
  · exact (List.pairwise_cons.mp sorted).2
  · intro day listed
    rcases List.mem_append.mp listed with between | last
    · exact ((days day).mp between).2.1
    · rw [List.mem_singleton.mp last]
      exact lot.later
  · refine List.pairwise_append.mpr ⟨?_, List.pairwise_singleton _ _, ?_⟩
    · rw [lot.passed]
      exact market.sorted.filter _
    · intro day between other last
      rw [List.mem_singleton.mp last]
      exact ((days day).mp between).2.2
  · intro day listed
    rcases List.mem_append.mp listed with between | last
    · exact ((days day).mp between).2.2.le
    · exact (List.mem_singleton.mp last).le
  · intro later inside
    obtain ⟨framed, mine, until'⟩ := member later inside
    rcases until'.eq_or_lt with last | before
    · exact List.mem_append_right _ (by simp [last])
    · refine List.mem_append_left _ ((days _).mpr ⟨?_, after later inside, before⟩)
      by_contra closed
      obtain ⟨bar, quoted, -⟩ := quotes.bar_of_row later framed
      rw [market.bars_eq_none _ closed] at quoted
      cases quoted

/-- What the null control sells of a lot at its exit is what the broker offers of it there, when
each price the broker carries it at gives way to a usable close before the next row. -/
theorem sellable_eq_available (frame : Universe) (market : DailyMarketData)
    (quotes : Quotes frame market) (lot : HeldLot market)
    (marked : MarkedToExit frame lot.order.symbol lot.trip.entryDate lot.exit) :
    frame.sellableAtExit lot.trip lot.order.symbol lot.order.quantity market.cashDividends =
      .ok (lot.left.offered lot.order.symbol) := by
  obtain ⟨traded, rest, run⟩ := bind_eq_ok.mp lot.run
  obtain ⟨opens, p, bought, quantity⟩ := bought_holding lot.fills lot.buys lot.filled lot.unheld
  obtain ⟨bar, quoted⟩ := Option.isSome_iff_exists.mp opens
  obtain ⟨othersHere, othersLater⟩ := List.forall_mem_cons.mp lot.others
  obtain ⟨same, today⟩ := trades_get?_of_ne othersHere rest
  have entered : (traded.mark (market.bars lot.trip.entryDate)).currentDay =
      some lot.trip.entryDate :=
    today.trans ((execute_frame lot.fills).currentDay_eq.trans lot.today)
  obtain ⟨row, rows, split, dated, close, after⟩ := entry_row quotes lot.later.le quoted
  have held : (traded.mark (market.bars lot.trip.entryDate)).positions.get? lot.order.symbol =
      some { p with lastPrice := markPrice (some bar) p.lastPrice } := by
    rw [← quoted]
    exact mark_get? (same.trans bought)
  have meets := HeldLot.meets quotes lot split dated after
  rw [MarkedToExit, split, rowsMarked, Bool.or_eq_true, List.isEmpty_iff] at marked
  -- the lot meets nothing before its entry's close, and nothing after its exit
  have outside : ∀ row : FrameRow, (∀ exit, lot.trip.exitDate = some exit →
      ¬ (lot.trip.entryDate < row.tradeDate ∧ row.tradeDate ≤ exit)) ↔
      ¬ (lot.trip.entryDate < row.tradeDate ∧ row.tradeDate ≤ lot.exit) := by
    intro row
    simp [lot.exits]
  have settled : ∃ last', (frame.rowsOf lot.order.symbol).foldlM
      (settleRow lot.trip lot.order.symbol market.cashDividends) (none, lot.order.quantity) =
        .ok (last', lot.left.offered lot.order.symbol) := by
    have marks : rows ≠ [] →
        ((price row.close).orElse fun _ => lastClose none ((frame.rowsOf lot.order.symbol).filter
          fun row => row.tradeDate < lot.trip.entryDate)) =
            some (markPrice (some bar) p.lastPrice) ∧
          closesMarked (markPrice (some bar) p.lastPrice) rows = true := by
      intro more
      obtain ⟨c, closes, marks⟩ := (Option.any_eq_true _ _).mp (marked.resolve_left more)
      rw [markPrice, Option.bind_some, close, closes]
      exact ⟨rfl, marks⟩
    have before : ∀ next ∈ lot.days, next.1 < lot.exit := by
      intro next member
      have listed : next.1 ∈ lot.days.map Prod.fst := List.mem_map_of_mem member
      rw [lot.passed, List.mem_filter, decide_eq_true_eq] at listed
      exact listed.2.2
    obtain ⟨last', way⟩ := settles_held quotes lot.exits le_rfl
      (fun next member => othersLater _ (List.mem_map_of_mem member)) entered held meets before
      marks run
    rw [quantity] at way
    rw [← rowsOf_split frame lot.order.symbol lot.trip.entryDate lot.exit, split]
    refine ⟨_, foldlM_append_eq_ok.mpr ⟨_, settleRows_outside ?_, foldlM_append_eq_ok.mpr ⟨_,
      foldlM_cons_eq_ok.mpr ⟨_, settleRow_outside ((outside row).mpr ?_), way⟩,
      settleRows_outside ?_⟩⟩⟩
    · intro early member
      have := of_decide_eq_true (List.mem_filter.mp member).2
      exact (outside early).mpr (by omega)
    · omega
    · intro late member
      have := of_decide_eq_true (List.mem_filter.mp member).2
      exact (outside late).mpr (by omega)
  obtain ⟨last', settled⟩ := settled
  rw [sellableAtExit, priceResets, foldlM_resetsFrom, settled]
  rfl

def barOf (row : FrameRow) : Bar :=
  { opening := row.opening, close := row.close, preClose := row.preClose,
    upLimit := row.preClose.map (· * 11 / 10), downLimit := row.preClose.map (· * 9 / 10) }

/-- A market whose bars are the rows of a frame, without distributions. -/
def marketOf (frame : Universe) (tradeDates : List Nat) (sorted : tradeDates.Pairwise (· < ·)) :
    DailyMarketData where
  tradeDates
  bars day symbol :=
    if day ∈ tradeDates then
      (frame.rows.find? fun row => row.symbol = symbol ∧ row.tradeDate = day).map barOf
    else none
  distributions _ _ := {}
  sorted
  bars_eq_none _ absent _ := if_neg absent

theorem quotes_marketOf (frame : Universe) {tradeDates : List Nat}
    (sorted : tradeDates.Pairwise (· < ·))
    (covered : ∀ row ∈ frame.rows, row.tradeDate ∈ tradeDates) :
    Quotes frame (frame.marketOf tradeDates sorted) := by
  constructor
  · intro row member
    have listed := covered row member
    simp only [marketOf, if_pos listed]
    cases found : frame.rows.find? fun other =>
        other.symbol = row.symbol ∧ other.tradeDate = row.tradeDate with
    | none => simpa using List.find?_eq_none.mp found row member
    | some other =>
      have same := List.find?_some found
      rw [decide_eq_true_eq] at same
      obtain rfl : other = row := List.inj_on_of_nodup_map frame.distinct
        (List.mem_of_find?_eq_some found) member (Prod.ext same.1 same.2)
      exact ⟨barOf other, rfl, rfl, rfl⟩
  · intro day symbol bar quoted
    simp only [marketOf] at quoted
    split_ifs at quoted
    obtain ⟨row, found, -⟩ := Option.map_eq_some_iff.mp quoted
    have same := List.find?_some found
    rw [decide_eq_true_eq] at same
    exact ⟨row, List.mem_of_find?_eq_some found, same.1, same.2⟩

/-- A name whose shares double on its second day, with the close of that day. -/
def splitFrame (close : Option ℚ) : Universe where
  rows := [⟨"600000.SH", 20240102, some 10, some 10, some 10, none⟩,
    ⟨"600000.SH", 20240103, some 5, close, some 5, none⟩,
    ⟨"600000.SH", 20240104, some 5, some 5, some 5, none⟩,
    ⟨"600000.SH", 20240105, some 5, some 5, some 5, none⟩]
  distinct := by simp

def splitMarket (close : Option ℚ) : DailyMarketData :=
  (splitFrame close).marketOf [20240102, 20240103, 20240104, 20240105] (by decide)

theorem split_quotes (close : Option ℚ) : Quotes (splitFrame close) (splitMarket close) :=
  quotes_marketOf _ _ (by simp [splitFrame])

/-- The lot of the first day's opening, sold on the last. -/
def splitTrip : RoundTrip :=
  { symbol := "600000.SH", quantity := 100, price := 10,
    entryAt := Instant.atMinute 20240102 570 Instant.open_lt,
    exitAt := some (Instant.atMinute 20240105 570 Instant.open_lt) }

def splitOrder : StrategyOrder :=
  { symbol := "600000.SH", action := .buy, quantity := 100, executeAt := splitTrip.entryAt,
    metadata := [], session := none, limitPrice := none, quantity_pos := roundLot_pos }

/-- What the broker offers of the lot at its exit. -/
def splitOffered (close : Option ℚ) : Option Int := do
  let market := splitMarket close
  let before := { DailyBroker.new .usual with currentDay := some 20240102 }
  let bought ← (before.execute splitOrder (market.bars 20240102 "600000.SH") splitTrip.entryAt
    (some 10)).toOption
  if bought.2.status = .filled then
    let left ← ((bought.1.mark (market.bars 20240102)).holdToExit market
      [(20240103, []), (20240104, [])] 20240105).toOption
    some (left.offered "600000.SH")
  else none

theorem exists_splitLot {close : Option ℚ} {shares : Int}
    (offered : splitOffered close = some shares) :
    ∃ lot : HeldLot (splitMarket close), lot.trip = splitTrip ∧ lot.order = splitOrder ∧
      lot.exit = 20240105 ∧ lot.left.offered "600000.SH" = shares := by
  obtain ⟨⟨bought, e⟩, fills, offered⟩ := Option.bind_eq_some_iff.mp offered
  by_cases filled : e.status = .filled
  · simp only [if_pos filled] at offered
    obtain ⟨left, run, shares'⟩ := Option.bind_eq_some_iff.mp offered
    let lot : HeldLot (splitMarket close) :=
      { trip := splitTrip, exit := 20240105, exits := rfl, later := by decide
        order := splitOrder, buys := rfl
        before := { DailyBroker.new {} with currentDay := some 20240102 }
        today := rfl, unheld := rfl, matchedAt := splitTrip.entryAt, rawPrice := some 10
        bought, execution := e, fills := toOption_eq_some.mp fills, filled, rest := []
        days := [(20240103, []), (20240104, [])], others := by simp
        passed := rfl
        left, run := toOption_eq_some.mp run }
    exact ⟨lot, rfl, rfl, rfl, Option.some.inj shares'⟩
  · simp only [if_neg filled] at offered
    cases offered

/-- With every close usable the lot sells what the broker offers of it, twice what was bought. -/
theorem sellable_eq_available_split : ∃ lot : HeldLot (splitMarket (some 5)),
    (splitFrame (some 5)).sellableAtExit lot.trip lot.order.symbol lot.order.quantity
        (splitMarket (some 5)).cashDividends = .ok (lot.left.offered lot.order.symbol) ∧
      lot.left.offered lot.order.symbol = 200 := by
  have offered : splitOffered (some 5) = some 200 := by decide +kernel
  have marked : MarkedToExit (splitFrame (some 5)) "600000.SH" 20240102 20240105 := by
    decide +kernel
  obtain ⟨lot, trip, order, exit, left⟩ := exists_splitLot offered
  refine ⟨lot, sellable_eq_available _ _ (split_quotes _) lot ?_, ?_⟩
  · rw [trip, order, exit]
    exact marked
  · rw [order]
    exact left

/-- Without the close of the day of the split the null control splits the lot twice. -/
theorem split_sold_twice : ∃ lot : HeldLot (splitMarket none),
    Quotes (splitFrame none) (splitMarket none) ∧ lot.left.offered lot.order.symbol = 200 ∧
    (splitFrame none).sellableAtExit lot.trip lot.order.symbol lot.order.quantity
      (splitMarket none).cashDividends = .ok 400 := by
  have offered : splitOffered none = some 200 := by decide +kernel
  obtain ⟨lot, trip, order, -, left⟩ := exists_splitLot offered
  refine ⟨lot, split_quotes none, ?_, ?_⟩
  · rw [order]
    exact left
  · rw [trip, order]
    decide +kernel

end Universe

end NullControl

end AutoTrade
