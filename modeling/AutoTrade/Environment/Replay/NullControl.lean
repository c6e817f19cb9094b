import AutoTrade.Environment.Replay.Market
import AutoTrade.Misc.Agenda

/-!
# The null control

`autotrade/environment/replay/null_control.py`: the round trips of a run, the names that may
stand in for each, and the orders of a draw. The generator is a function of its seed, and the
seed of a round trip one of what identifies it.
-/

namespace AutoTrade

namespace NullControl

/-- `RoundTrip`. -/
structure RoundTrip where
  symbol : Symbol
  quantity : Int
  price : ℚ
  entryAt : Instant
  exitAt : Option Instant
  entrySession : Option OrderSession := none
  entryLimit : Option ℚ := none
  exitSession : Option OrderSession := none
  exitLimit : Option ℚ := none
  deriving DecidableEq

namespace RoundTrip

variable (trip : RoundTrip)

def notional : ℚ := trip.quantity * trip.price

def entryDate : Nat := trip.entryAt.day

def exitDate : Option Nat := trip.exitAt.map Instant.day

end RoundTrip

/-- The shares of one filled buy that no sale has taken yet. -/
structure OpenLot where
  quantity : Int
  price : ℚ
  entryAt : Instant
  session : Option OrderSession
  limit : Option ℚ
  deriving DecidableEq

/-- The buys of one name that are open, and what a sale leaves of them: the trips it closes, the
lots it leaves, and the shares no lot accounts for. -/
def closeLots (sale : Execution) : Int → List OpenLot → List RoundTrip × List OpenLot × Int
  | remaining, [] => ([], [], if 0 < remaining then remaining else 0)
  | remaining, lot :: lots =>
    if 0 < remaining then
      let taken := min remaining lot.quantity
      let trip : RoundTrip :=
        { symbol := sale.symbol, quantity := taken, price := lot.price, entryAt := lot.entryAt,
          exitAt := some sale.matchedAt, entrySession := lot.session, entryLimit := lot.limit,
          exitSession := sale.session, exitLimit := sale.limitPrice }
      if lot.quantity - taken = 0 then
        let closed := closeLots sale (remaining - taken) lots
        (trip :: closed.1, closed.2)
      else ([trip], { lot with quantity := lot.quantity - taken } :: lots, 0)
    else ([], lot :: lots, 0)

/-- Where the pairing of the fills stands. -/
structure Pairing where
  openLots : Dict Symbol (List OpenLot) := Dict.empty
  trips : List RoundTrip := []
  unpairedSellShares : Int := 0
  deriving DecidableEq

/-- One fill paired. -/
def pairFill (pairing : Pairing) (fill : Execution) : Pairing :=
  let lots := (pairing.openLots.get? fill.symbol).getD []
  match fill.action with
  | .buy =>
    { pairing with
      openLots := pairing.openLots.set fill.symbol (lots ++
        [⟨fill.quantity, fill.price.getD 0, fill.matchedAt, fill.session, fill.limitPrice⟩]) }
  | .sell =>
    let closed := closeLots fill fill.quantity lots
    { openLots :=
        if (pairing.openLots.get? fill.symbol).isSome then
          pairing.openLots.set fill.symbol closed.2.1
        else pairing.openLots
      trips := pairing.trips ++ closed.1
      unpairedSellShares := pairing.unpairedSellShares + closed.2.2 }

/-- The trip of a lot that is still open. -/
def openTrip (symbol : Symbol) (lot : OpenLot) : RoundTrip :=
  { symbol, quantity := lot.quantity, price := lot.price, entryAt := lot.entryAt, exitAt := none,
    entrySession := lot.session, entryLimit := lot.limit }

/-- The filled executions in the order of their instants. -/
def fillsOf (executions : List Execution) : List Execution :=
  Agenda.byTime Execution.matchedAt (executions.filter fun e => e.status = .filled)

/-- `trade_skeleton`. -/
def tradeSkeleton (executions : List Execution) : List RoundTrip × Int :=
  let pairing := (fillsOf executions).foldl pairFill {}
  let trips := pairing.trips ++
    pairing.openLots.entries.flatMap fun entry => entry.2.map (openTrip entry.1)
  (trips.insertionSort fun a b =>
      a.entryAt < b.entryAt ∨ a.entryAt = b.entryAt ∧ a.symbol ≤ b.symbol,
    pairing.unpairedSellShares)

inductive NullError where
  /-- `NullControlSetupError`: no benchmark membership is dated before the day. -/
  | noMembership (day : Nat)
  | noTradableBar (day : Nat)
  | noRow (symbol : Symbol) (day : Nat)
  | noPreClose (original replacement : Symbol) (day : Nat)
  | invalidShareMultiplier (symbol : Symbol) (day : Nat)
  deriving DecidableEq

/-- One row of a replay frame, its numbers read; what is no finite number is none. -/
structure FrameRow where
  symbol : Symbol
  tradeDate : Nat
  opening : Option ℚ
  close : Option ℚ
  preClose : Option ℚ
  circMv : Option ℚ
  deriving DecidableEq

/-- The rows of a replay frame, one a name and day. -/
structure Universe where
  rows : List FrameRow
  distinct : (rows.map fun row => (row.symbol, row.tradeDate)).Nodup

namespace Universe

variable (frame : Universe)

/-- `_Universe.day`: the names of a day with an opening price, in the order of the frame. -/
def day (date : Nat) : Except NullError (List FrameRow) :=
  match frame.rows.filter fun row => row.tradeDate = date ∧ (price row.opening).isSome with
  | [] => .error (.noTradableBar date)
  | rows => .ok rows

/-- The row of a name on a day. -/
def rowOf (rows : List FrameRow) (symbol : Symbol) : Option FrameRow :=
  rows.find? fun row => row.symbol = symbol

/-- `_DECILES`. -/
def DECILES : Nat := 10

/-- The decile of a row's float capitalization among the rows that have one, ties shared. -/
def decileOf (rows : List FrameRow) (value : ℚ) : Nat :=
  let values := rows.filterMap FrameRow.circMv
  let rank : ℚ := ((values.filter (· < value)).length + 1 : Nat)
  min ⌊rank / values.length * DECILES⌋.toNat (DECILES - 1)

/-- `carried_limit`. -/
def carriedLimit (limit : Option ℚ) (original replacement : Symbol) (date : Nat) :
    Except NullError (Option ℚ) :=
  match limit with
  | none => .ok none
  | some limit => do
    let rows ← frame.day date
    match rowOf rows original, rowOf rows replacement with
    | none, _ => .error (.noRow original date)
    | _, none => .error (.noRow replacement date)
    | some here, some there =>
      match price here.preClose, price there.preClose with
      | some base, some base' => .ok (some (⌊limit / base * base' * 100 + 1 / 2⌋ / 100))
      | _, _ => .error (.noPreClose original replacement date)

/-- The rows of a name by their days. -/
def rowsOf (symbol : Symbol) : List FrameRow :=
  (frame.rows.filter fun row => row.symbol = symbol).insertionSort fun a b =>
    a.tradeDate ≤ b.tradeDate

/-- The days whose `pre_close` departs from the last usable close before them. -/
def resetsFrom : Option ℚ → List FrameRow → List (Nat × ℚ × ℚ)
  | _, [] => []
  | lastClose, row :: rows =>
    let later := resetsFrom ((price row.close).orElse fun _ => lastClose) rows
    match lastClose, price row.preClose with
    | some last, some preClose =>
      if preClose ≠ last then (row.tradeDate, last, preClose) :: later else later
    | _, _ => later

/-- `_price_resets`, of one name. -/
def priceResets (symbol : Symbol) : List (Nat × ℚ × ℚ) := resetsFrom none (frame.rowsOf symbol)

/-- One reset of a lot that is held to its exit. -/
def settleReset (trip : RoundTrip) (symbol : Symbol) (cashDividends : Nat → Symbol → ℚ)
    (held : Int) (reset : Nat × ℚ × ℚ) : Except NullError Int :=
  match trip.exitDate with
  | none => .ok held
  | some exitDate =>
    if trip.entryDate < reset.1 ∧ reset.1 ≤ exitDate then
      match exDateShareMultiplier reset.2.1 reset.2.2 (cashDividends reset.1 symbol) with
      | none => .error (.invalidShareMultiplier symbol reset.1)
      | some none => .ok held
      | some (some ratio) =>
        let settled := exDateShares held ratio
        .ok (if reset.1 = exitDate then min held settled else settled)
    else .ok held

/-- `sellable_at_exit`. -/
def sellableAtExit (trip : RoundTrip) (symbol : Symbol) (quantity : Int)
    (cashDividends : Nat → Symbol → ℚ) : Except NullError Int :=
  (frame.priceResets symbol).foldlM (settleReset trip symbol cashDividends) quantity

end Universe

/-- The benchmark's constituents, by the day they were published on. -/
abbrev Membership := Dict Nat (List Symbol)

/-- `_Membership.before`. -/
def membersBefore (members : Membership) (date : Nat) : Except NullError (List Symbol) :=
  let dates := members.keys.insertionSort (· ≤ ·)
  match (dates.takeWhile (· < date)).getLast? with
  | none => .error (.noMembership date)
  | some section' => .ok ((members.get? section').getD [])

/-- `_board`. -/
inductive LotBoard where
  | star | bse | main
  deriving DecidableEq

def lotBoard (symbol : Symbol) : LotBoard :=
  if isStarMarket symbol then .star else if isBseMarket symbol then .bse else .main

/-- `_lot_quantities`, of one name. -/
def lotQuantity (shares : Int) (board : LotBoard) : Int :=
  let declared := if board = .main then shares - shares % lotSize else shares
  let minimum := if board = .star then starMinLotSize else lotSize
  if minimum ≤ shares then declared else 0

/-- The names on the round trip's own side of the benchmark, or in its own decile. -/
def matchedRows (trip : RoundTrip) (members : Option Membership) (entry : List FrameRow) :
    Except NullError (List FrameRow) :=
  match members with
  | none =>
    match (Universe.rowOf entry trip.symbol).bind FrameRow.circMv with
    | none => .ok entry
    | some value =>
      .ok (entry.filter fun row =>
        row.circMv.any fun v => Universe.decileOf entry v = Universe.decileOf entry value)
  | some members => do
    let constituents ← membersBefore members trip.entryDate
    return entry.filter fun row =>
      decide (row.symbol ∈ constituents) = decide (trip.symbol ∈ constituents)

/-- The names that can be sold again where the trip has an exit. -/
def exitableRows (frame : Universe) (trip : RoundTrip) (rows : List FrameRow) :
    Except NullError (List FrameRow) :=
  match trip.exitDate with
  | none => .ok rows
  | some exitDate => do
    let exit ← frame.day exitDate
    return rows.filter fun row => (Universe.rowOf exit row.symbol).isSome

/-- What the money of a trip buys of a name. -/
def affordable (trip : RoundTrip) (row : FrameRow) : Int :=
  lotQuantity ⌊trip.notional / row.opening.getD 1⌋ (lotBoard row.symbol)

/-- `_candidate_pool`. -/
def candidatePool (frame : Universe) (members : Option Membership)
    (permittedBoards : Option (List Board)) (trip : RoundTrip) :
    Except NullError (List (Symbol × Int)) := do
  let entry ← frame.day trip.entryDate
  let matching ← matchedRows trip members entry
  let rows ← exitableRows frame trip matching
  let permitted := rows.filter fun row =>
    permittedBoards.all fun boards => (boardOf row.symbol).any (· ∈ boards)
  let others := permitted.filter fun row => row.symbol ≠ trip.symbol
  return (others.map fun row => (row.symbol, affordable trip row)).filter fun name => 0 < name.2

/-- What identifies a round trip in a draw. -/
structure Identity where
  entryAt : Instant
  symbol : Symbol
  quantity : Int
  deriving DecidableEq

def RoundTrip.identity (trip : RoundTrip) : Identity := ⟨trip.entryAt, trip.symbol, trip.quantity⟩

/-- A trip of the skeleton, by its place in it, with the name and shares it drew. -/
structure Drawn where
  place : Nat
  trip : RoundTrip
  symbol : Symbol
  quantity : Int
  deriving DecidableEq

/-- How names are drawn: `np.random.default_rng(_trip_seed(seed, draw, trip, twin)).integers`, of
a seed, the draw, an identity and its twin, below one more than what it is given. -/
structure Generator where
  tripSeed : Int → Nat → Identity → Nat → Nat
  integers : Nat → (n : Nat) → Fin (n + 1)

/-- Where a draw stands. -/
structure DrawState where
  place : Nat := 0
  dropped : Nat := 0
  drawn : List Drawn := []
  holders : Dict Symbol (List Drawn) := Dict.empty
  twins : Dict Identity Nat := Dict.empty

section Draw

variable (generator : Generator) (seed : Int) (draw : Nat)

/-- One trip draws its name. -/
def drawTrip (state : DrawState) (next : RoundTrip × List (Symbol × Int)) : DrawState :=
  let identity := next.1.identity
  let twin := (state.twins.get? identity).getD 0
  let counted :=
    { state with place := state.place + 1, twins := state.twins.set identity (twin + 1) }
  match next.2 with
  | [] => { counted with dropped := state.dropped + 1 }
  | name :: names =>
    let at' := generator.integers (generator.tripSeed seed draw identity twin) names.length
    let picked := (name :: names).get at'
    let drawn : Drawn := ⟨state.place, next.1, picked.1, picked.2⟩
    { counted with
      drawn := state.drawn ++ [drawn]
      holders := state.holders.set picked.1 ((state.holders.get? picked.1).getD [] ++ [drawn]) }

variable (sellable : RoundTrip → Symbol → Int → Except NullError Int)
  (carriedLimit : Option ℚ → Symbol → Symbol → Nat → Except NullError (Option ℚ))

/-- What `_queue` makes of a leg. -/
def legOrder (symbol : Symbol) (action : OrderAction) (quantity : Int) (when' : Instant)
    (session : Option OrderSession) (limitPrice : Option ℚ) : OrderRecord :=
  { symbol, action, quantity, executeAt := when', metadata := [], session, limitPrice }

/-- The buy of a drawn trip. -/
def entryOrder (d : Drawn) : Except NullError OrderRecord := do
  let limit ← carriedLimit d.trip.entryLimit d.trip.symbol d.symbol d.trip.entryDate
  return legOrder d.symbol .buy d.quantity d.trip.entryAt d.trip.entrySession limit

/-- Whether another holder of the name was held beside a trip that ends at an instant. -/
def heldBeside (holders : List Drawn) (d : Drawn) (exitAt : Instant) : Bool :=
  holders.any fun other => other.place ≠ d.place ∧ other.trip.entryAt < exitAt ∧
    other.trip.exitAt.all (d.trip.entryAt < ·)

/-- What an exit sells: whole lots where an odd tail may not be the whole holding's. -/
def exitShares (holders : List Drawn) (d : Drawn) (exitAt : Instant) (shares : Int) : Int :=
  if shares % lotSize ≠ 0 ∧ lotBoard d.symbol = .main ∧ heldBeside holders d exitAt then
    shares - shares % lotSize
  else shares

/-- The sale of a drawn trip, if it has one. -/
def exitOrder (holders : List Drawn) (d : Drawn) : Except NullError (Option OrderRecord) :=
  match d.trip.exitAt with
  | none => .ok none
  | some exitAt => do
    let shares ← sellable d.trip d.symbol d.quantity
    let sold := exitShares holders d exitAt shares
    if 0 < sold then
      let limit ← carriedLimit d.trip.exitLimit d.trip.symbol d.symbol exitAt.day
      return some (legOrder d.symbol .sell sold exitAt d.trip.exitSession limit)
    else return none

/-- The orders of a draw, by their days. -/
abbrev Orders := Dict Nat (List OrderRecord)

/-- `_queue`. -/
def queue (orders : Orders) (order : OrderRecord) : Orders :=
  let day := order.executeAt.day
  orders.set day ((orders.get? day).getD [] ++ [order])

/-- Both legs of a drawn trip queued. -/
def queueLegs (holders : Dict Symbol (List Drawn)) (orders : Orders) (d : Drawn) :
    Except NullError Orders := do
  let buy ← entryOrder carriedLimit d
  let sale ← exitOrder sellable carriedLimit ((holders.get? d.symbol).getD []) d
  return sale.toList.foldl queue (queue orders buy)

/-- The orders of a day: exits before entries at one instant. -/
def sortOrders (orders : List OrderRecord) : List OrderRecord :=
  orders.insertionSort fun a b =>
    toLex (a.executeAt, decide (a.action = .buy)) ≤ toLex (b.executeAt, decide (b.action = .buy))

/-- `_orders_from_pools`. -/
def ordersFromPools (skeleton : List RoundTrip) (pools : List (List (Symbol × Int))) :
    Except NullError (Orders × Nat) := do
  let state := (skeleton.zip pools).foldl (drawTrip generator seed draw) {}
  let orders ← state.drawn.foldlM (queueLegs sellable carriedLimit state.holders) Dict.empty
  return (orders.mapValues fun _ => sortOrders, state.dropped)

end Draw

/-- The orders of one draw of `run_null_control`. -/
def nullOrders (generator : Generator) (frame : Universe) (members : Option Membership)
    (permittedBoards : Option (List Board)) (cashDividends : Nat → Symbol → ℚ) (seed : Int)
    (draw : Nat) (skeleton : List RoundTrip) : Except NullError (Orders × Nat) := do
  let pools ← skeleton.mapM (candidatePool frame members permittedBoards)
  ordersFromPools generator seed draw
    (fun trip symbol quantity => frame.sellableAtExit trip symbol quantity cashDividends)
    frame.carriedLimit skeleton pools

end NullControl

end AutoTrade
