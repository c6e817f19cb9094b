import AutoTrade.Environment.Proofs.Broker

/-!
# The prices orders fill at

A fill keeps to the day: under the limit against it, and for a day limit order to its own
limit and the prices of the day. A looser limit fills whenever a tighter one does, at no
better a price.
-/

namespace AutoTrade

open DailyBroker

/-- The prices of a day in their order. -/
structure DayBand where
  down : ℚ
  low : ℚ
  opening : ℚ
  close : ℚ
  high : ℚ
  up : ℚ
  positive : 0 < down
  down_le : down ≤ low
  low_le_opening : low ≤ opening
  low_le_close : low ≤ close
  opening_le_high : opening ≤ high
  close_le_high : close ≤ high
  high_le : high ≤ up

/-- The bar carries these prices. -/
structure Bar.InBand (bar : Bar) (band : DayBand) : Prop where
  downLimit : bar.downLimit = some band.down
  low : bar.low = some band.low
  opening : bar.opening = some band.opening
  close : bar.close = some band.close
  high : bar.high = some band.high
  upLimit : bar.upLimit = some band.up

/-- The tolerance of the gate at a limit. -/
def limitTolerance : ℚ := 1 / 1000000000

/-- What a buy pays: at most the upper limit, less than it at an auction or an exact time,
    and as a day limit order no more than its limit, within the day's prices. -/
structure BuysWithin (band : DayBand) (order : StrategyOrder) (p : ℚ) : Prop where
  le_up : p ≤ band.up
  lt_up : order.session ≠ some .intraday → p < band.up - limitTolerance
  dayLimit : order.session = some .intraday → ∀ limitPrice ∈ order.limitPrice,
    p ≤ limitPrice ∧ band.low - quoteHalfTick ≤ p ∧ p ≤ band.high + quoteHalfTick

/-- What a sale is paid, the mirror image at the lower limit. -/
structure SellsWithin (band : DayBand) (order : StrategyOrder) (p : ℚ) : Prop where
  down_le : band.down ≤ p
  down_lt : order.session ≠ some .intraday → band.down + limitTolerance < p
  dayLimit : order.session = some .intraday → ∀ limitPrice ∈ order.limitPrice,
    limitPrice ≤ p ∧ band.low - quoteHalfTick ≤ p ∧ p ≤ band.high + quoteHalfTick

def FillsWithin (band : DayBand) (order : StrategyOrder) (p : ℚ) : Prop :=
  match order.action with
  | .buy => BuysWithin band order p
  | .sell => SellsWithin band order p

/-- The price an order meets: a session's own, or any at an exact time. -/
def Meets (order : StrategyOrder) (bar : Bar) (base : ℚ) : Prop :=
  ∀ session, order.session = some session → sessionPrice session order bar = some base

theorem reachesLimit_buy {p limit : ℚ} :
    reachesLimit p limit .buy = false ↔ p < limit - limitTolerance := by
  simp only [reachesLimit, limitTolerance, decide_eq_false_iff_not, not_le]

theorem reachesLimit_sell {p limit : ℚ} :
    reachesLimit p limit .sell = false ↔ limit + limitTolerance < p := by
  simp only [reachesLimit, limitTolerance, decide_eq_false_iff_not, not_le]

theorem price_some {p : ℚ} (positive : 0 < p) : price (some p) = some p := by
  simp [price, positive]

namespace DayBand

variable (band : DayBand)

theorem low_pos : 0 < band.low := band.positive.trans_le band.down_le

theorem opening_pos : 0 < band.opening := band.low_pos.trans_le band.low_le_opening

theorem high_pos : 0 < band.high := band.opening_pos.trans_le band.opening_le_high

theorem up_pos : 0 < band.up := band.high_pos.trans_le band.high_le

/-- The limit against an order. -/
def limit : OrderAction → ℚ
  | .buy => band.up
  | .sell => band.down

/-- A day locked at the limit against an order. -/
def locked (action : OrderAction) : Prop :=
  |band.high - band.limit action| < quoteHalfTick ∧ |band.low - band.limit action| < quoteHalfTick

/-- The day's prices come to a limit price. -/
def reaches (limitPrice : ℚ) : OrderAction → Prop
  | .buy => band.low ≤ limitPrice + quoteHalfTick
  | .sell => limitPrice - quoteHalfTick ≤ band.high

/-- What a day limit order trades at. -/
def better (limitPrice : ℚ) : OrderAction → ℚ
  | .buy => min band.opening limitPrice
  | .sell => max band.opening limitPrice

end DayBand

namespace Bar.InBand

variable {bar : Bar} {band : DayBand} {profile : BrokerProfile} {order : StrategyOrder} {base p : ℚ}

theorem price_limit (inBand : bar.InBand band) (action : OrderAction) :
    price (if action = .buy then bar.upLimit else bar.downLimit) = some (band.limit action) := by
  cases action with
  | buy => simp [inBand.upLimit, price_some band.up_pos, DayBand.limit]
  | sell => simp [inBand.downLimit, price_some band.positive, DayBand.limit]

theorem fillPriceOf_timed (inBand : bar.InBand band) (timed : order.session ≠ some .intraday) :
    fillPriceOf profile order bar base = .ok p ↔
      p = profile.fillPrice base order.action ∧
        reachesLimit p (band.limit order.action) order.action = false := by
  unfold fillPriceOf
  rw [inBand.price_limit]
  dsimp only
  rw [if_pos timed]
  by_cases reached : reachesLimit (profile.fillPrice base order.action) (band.limit order.action)
      order.action = true
  · rw [if_pos reached]
    constructor
    · intro impossible
      cases impossible
    · rintro ⟨rfl, inside⟩
      rw [reached] at inside
      cases inside
  · rw [if_neg reached, Except.ok.injEq]
    constructor
    · rintro rfl
      exact ⟨rfl, by simpa using reached⟩
    · rintro ⟨rfl, -⟩
      rfl

theorem fillPriceOf_average (inBand : bar.InBand band) (day : order.session = some .intraday)
    (market : order.limitPrice = none) (fills : fillPriceOf profile order bar base = .ok p) :
    p = if order.action = .buy then min (profile.fillPrice base order.action) band.up
      else max (profile.fillPrice base order.action) band.down := by
  unfold fillPriceOf at fills
  rw [inBand.price_limit, inBand.high, inBand.low, price_some band.high_pos,
    price_some band.low_pos] at fills
  simp only [day, market, ne_eq, not_true_eq_false, if_false] at fills
  split_ifs at fills with locked buys
  · rw [if_pos buys, ← Except.ok.inj fills]
    simp [buys, DayBand.limit]
  · rw [if_neg buys, ← Except.ok.inj fills]
    have sells : order.action = .sell := by
      cases action : order.action with
      | buy => exact absurd action buys
      | sell => rfl
    simp [sells, DayBand.limit]

theorem fillPriceOf_dayLimit (inBand : bar.InBand band) (day : order.session = some .intraday)
    {limitPrice : ℚ} (limited : order.limitPrice = some limitPrice) :
    fillPriceOf profile order bar base = .ok p ↔
      ¬ band.locked order.action ∧ band.reaches limitPrice order.action ∧ p = base := by
  unfold fillPriceOf
  rw [inBand.price_limit, inBand.high, inBand.low, price_some band.high_pos,
    price_some band.low_pos]
  simp only [day, limited, ne_eq, not_true_eq_false, if_false]
  by_cases locked : band.locked order.action
  · have stops : |band.high - band.limit order.action| < quoteHalfTick ∧
      |band.low - band.limit order.action| < quoteHalfTick := locked
    simp [stops, locked]
  · have goes : ¬ (|band.high - band.limit order.action| < quoteHalfTick ∧
      |band.low - band.limit order.action| < quoteHalfTick) := locked
    have reached : (if order.action = .buy then decide (band.low ≤ limitPrice + quoteHalfTick)
        else decide (limitPrice - quoteHalfTick ≤ band.high)) = true ↔
          band.reaches limitPrice order.action := by
      cases order.action <;> simp [DayBand.reaches]
    rw [if_neg goes]
    by_cases reaches : band.reaches limitPrice order.action
    · rw [if_pos (reached.mpr reaches), Except.ok.injEq]
      exact ⟨fun same => ⟨locked, reaches, same.symm⟩, fun filled => filled.2.2.symm⟩
    · rw [if_neg fun met => reaches (reached.mp met)]
      exact ⟨fun impossible => (by cases impossible), fun filled => absurd filled.2.1 reaches⟩

theorem sessionPrice_dayLimit (inBand : bar.InBand band) {limitPrice : ℚ}
    (limited : order.limitPrice = some limitPrice) :
    sessionPrice .intraday order bar = some (band.better limitPrice order.action) := by
  simp only [sessionPrice, limited, inBand.opening, price_some band.opening_pos, Option.map_some]
  cases order.action <;> rfl

theorem buys_within (inBand : bar.InBand band) (meets : Meets order bar base)
    (buys : order.action = .buy) (fills : fillPriceOf profile order bar base = .ok p) :
    BuysWithin band order p := by
  have half : 0 < quoteHalfTick := by norm_num [quoteHalfTick]
  have tolerance : 0 < limitTolerance := by norm_num [limitTolerance]
  by_cases timed : order.session = some .intraday
  · cases limited : order.limitPrice with
    | none =>
      have average := inBand.fillPriceOf_average timed limited fills
      rw [if_pos buys] at average
      refine ⟨average ▸ min_le_right _ _, fun other => absurd timed other,
        fun _ limitPrice member => ?_⟩
      rw [limited] at member
      cases member
    | some limitPrice =>
      obtain ⟨-, reached, rfl⟩ := (inBand.fillPriceOf_dayLimit timed limited).mp fills
      have met := (inBand.sessionPrice_dayLimit limited).symm.trans (meets _ timed)
      rw [buys] at reached met
      have price : p = min band.opening limitPrice := (Option.some.inj met).symm
      have opened : p ≤ band.opening := price ▸ min_le_left _ _
      have reached : band.low ≤ limitPrice + quoteHalfTick := reached
      have low : band.low - quoteHalfTick ≤ p := by
        rw [price]
        exact le_min (by linarith [band.low_le_opening]) (by linarith)
      have high := band.opening_le_high
      refine ⟨by linarith [band.high_le], fun other => absurd timed other, fun _ other member => ?_⟩
      obtain rfl : limitPrice = other := Option.some.inj (limited.symm.trans member)
      exact ⟨price ▸ min_le_right _ _, low, by linarith⟩
  · obtain ⟨-, inside⟩ := (inBand.fillPriceOf_timed timed).mp fills
    rw [buys, reachesLimit_buy] at inside
    exact ⟨(inside.trans (sub_lt_self _ tolerance)).le, fun _ => inside,
      fun intraday => absurd intraday timed⟩

theorem sells_within (inBand : bar.InBand band) (meets : Meets order bar base)
    (sells : order.action = .sell) (fills : fillPriceOf profile order bar base = .ok p) :
    SellsWithin band order p := by
  have half : 0 < quoteHalfTick := by norm_num [quoteHalfTick]
  have tolerance : 0 < limitTolerance := by norm_num [limitTolerance]
  have sale : ¬ order.action = .buy := by simp [sells]
  by_cases timed : order.session = some .intraday
  · cases limited : order.limitPrice with
    | none =>
      have average := inBand.fillPriceOf_average timed limited fills
      rw [if_neg sale] at average
      refine ⟨average ▸ le_max_right _ _, fun other => absurd timed other,
        fun _ limitPrice member => ?_⟩
      rw [limited] at member
      cases member
    | some limitPrice =>
      obtain ⟨-, reached, rfl⟩ := (inBand.fillPriceOf_dayLimit timed limited).mp fills
      have met := (inBand.sessionPrice_dayLimit limited).symm.trans (meets _ timed)
      rw [sells] at reached met
      have price : p = max band.opening limitPrice := (Option.some.inj met).symm
      have opened : band.opening ≤ p := price ▸ le_max_left _ _
      have reached : limitPrice - quoteHalfTick ≤ band.high := reached
      have high : p ≤ band.high + quoteHalfTick := by
        rw [price]
        exact max_le (by linarith [band.opening_le_high]) (by linarith)
      have low := band.low_le_opening
      refine ⟨by linarith [band.down_le], fun other => absurd timed other, fun _ other member => ?_⟩
      obtain rfl : limitPrice = other := Option.some.inj (limited.symm.trans member)
      exact ⟨price ▸ le_max_right _ _, by linarith, high⟩
  · obtain ⟨-, inside⟩ := (inBand.fillPriceOf_timed timed).mp fills
    rw [sells, reachesLimit_sell] at inside
    exact ⟨((lt_add_of_pos_right _ tolerance).trans inside).le, fun _ => inside,
      fun intraday => absurd intraday timed⟩

theorem fills_within (inBand : bar.InBand band) (meets : Meets order bar base)
    (fills : fillPriceOf profile order bar base = .ok p) : FillsWithin band order p := by
  unfold FillsWithin
  cases action : order.action with
  | buy => exact inBand.buys_within meets action fills
  | sell => exact inBand.sells_within meets action fills

end Bar.InBand

/-- A limit that admits all prices another does. -/
def Looser (loose tight : ℚ) : OrderAction → Prop
  | .buy => tight ≤ loose
  | .sell => loose ≤ tight

/-- A price no better for the order. -/
def NoBetter (p other : ℚ) : OrderAction → Prop
  | .buy => other ≤ p
  | .sell => p ≤ other

/-- The day limit order at a limit price. -/
def StrategyOrder.atLimit (order : StrategyOrder) (limitPrice : ℚ) : StrategyOrder :=
  { order with session := some .intraday, limitPrice := some limitPrice }

variable {action : OrderAction} {loose tight : ℚ}

theorem DayBand.reaches_looser {band : DayBand} (looser : Looser loose tight action)
    (reached : band.reaches tight action) :
    band.reaches loose action := by
  cases action with
  | buy => exact reached.trans (by linarith [show tight ≤ loose from looser])
  | sell => exact le_trans (by linarith [show loose ≤ tight from looser]) reached

theorem DayBand.better_looser {band : DayBand} (looser : Looser loose tight action) :
    NoBetter (band.better loose action) (band.better tight action) action := by
  cases action with
  | buy => exact min_le_min_left _ looser
  | sell => exact max_le_max_left _ looser

theorem DayBand.better_pos {band : DayBand} (looser : Looser loose tight action)
    (positive : 0 < band.better tight action) :
    0 < band.better loose action := by
  cases action with
  | buy => exact positive.trans_le (min_le_min_left _ looser)
  | sell => exact band.opening_pos.trans_le (le_max_left _ _)

/-- Fills keep within the day's limits, and a day limit order within its own limit and the
    day's prices; of two limits on one day the looser fills whenever the tighter does, at no
    better a price. -/
theorem fill_prices_within {bar : Bar} {band : DayBand} (inBand : bar.InBand band) :
    (∀ (b : DailyBroker) order matchedAt base b' e, Meets order bar base →
      b.execute order (some bar) matchedAt (some base) = .ok (b', e) → e.status = .filled →
        ∃ p, fillPriceOf b.profile order bar base = .ok p ∧ e.price = some p ∧
          FillsWithin band order p) ∧
    ∀ profile (order : StrategyOrder) tight loose, Looser loose tight order.action →
      ∀ base p, sessionPrice .intraday (order.atLimit tight) bar = some base →
        fillPriceOf profile (order.atLimit tight) bar base = .ok p →
        ∃ base' p', sessionPrice .intraday (order.atLimit loose) bar = some base' ∧
          fillPriceOf profile (order.atLimit loose) bar base' = .ok p' ∧
          (0 < base → 0 < base') ∧ NoBetter p' p order.action := by
  constructor
  · intro b order matchedAt base b' e meets executed filled
    rcases DailyBroker.execute_cases executed with
      ⟨reason, left⟩ | ⟨_, _, p, -, same, priced, fills, made⟩
    · rw [(Prod.mk.inj left).2] at filled
      cases filled
    obtain rfl := Option.some.inj same
    obtain ⟨base', -⟩ := price_eq_some priced
    obtain rfl := Option.some.inj base'
    obtain ⟨day, commission, stampDuty, -, -, cases⟩ := DailyBroker.fillAt_cases made
    rcases cases with ⟨-, -, left⟩ | ⟨bought, -, -, left⟩ | ⟨sold, tax, realized, -, -, left⟩
    · rw [(Prod.mk.inj left).2] at filled
      cases filled
    · exact ⟨p, fills, by rw [(Prod.mk.inj left).2]; rfl, inBand.fills_within meets fills⟩
    · exact ⟨p, fills, by rw [(Prod.mk.inj left).2]; rfl, inBand.fills_within meets fills⟩
  · intro profile order tight loose looser base p met fills
    obtain ⟨unlocked, reached, rfl⟩ := (inBand.fillPriceOf_dayLimit rfl rfl).mp fills
    have price := (inBand.sessionPrice_dayLimit rfl).symm.trans met
    refine ⟨_, _, inBand.sessionPrice_dayLimit rfl,
      (inBand.fillPriceOf_dayLimit rfl rfl).mpr ⟨unlocked, DayBand.reaches_looser looser reached, rfl⟩,
      ?_⟩
    rw [← Option.some.inj price]
    exact ⟨DayBand.better_pos looser, DayBand.better_looser looser⟩

/-- A day that opens at 10 between its limits. -/
def quietDay : DayBand where
  down := 9
  low := 19 / 2
  opening := 10
  close := 10
  high := 21 / 2
  up := 11
  positive := by norm_num
  down_le := by norm_num
  low_le_opening := by norm_num
  low_le_close := by norm_num
  opening_le_high := by norm_num
  close_le_high := by norm_num
  high_le := by norm_num

def quietBar : Bar :=
  { opening := some 10, close := some 10, high := some (21 / 2), low := some (19 / 2),
    upLimit := some 11, downLimit := some 9 }

def quietBuy : StrategyOrder :=
  { symbol := "600000.SH", action := .buy, quantity := 100,
    executeAt := Instant.atMinute 20240105 570 Instant.open_lt, metadata := [],
    session := some .intraday, limitPrice := some (49 / 5), quantity_pos := roundLot_pos }

theorem quietBuy_looser : ∃ base p,
    sessionPrice .intraday (quietBuy.atLimit (51 / 5)) quietBar = some base ∧
      fillPriceOf {} (quietBuy.atLimit (51 / 5)) quietBar base = .ok p ∧
      ((0 : ℚ) < 49 / 5 → 0 < base) ∧ NoBetter p (49 / 5) quietBuy.action := by
  have inBand : quietBar.InBand quietDay := ⟨rfl, rfl, rfl, rfl, rfl, rfl⟩
  have looser : Looser (51 / 5) (49 / 5) quietBuy.action := by
    show (49 / 5 : ℚ) ≤ 51 / 5
    norm_num
  exact (fill_prices_within inBand).2 {} quietBuy (49 / 5) (51 / 5) looser (49 / 5) (49 / 5)
    (by decide +kernel) (by decide +kernel)

end AutoTrade
