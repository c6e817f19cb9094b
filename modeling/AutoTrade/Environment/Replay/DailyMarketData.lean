import AutoTrade.Environment.BarHeap
import AutoTrade.Environment.Replay.Distributions
import AutoTrade.Misc.Arrays

/-!
# The daily bars of a replay

`DailyMarketData` of `autotrade/environment/replay/market.py`: the frame as one chunk
sorted by `available_at`, date and symbol, with the rows of each trading day.
-/

namespace AutoTrade

namespace Replay

open Arrays BarColumns Json

/-- The kinds of columns the store types; an unsigned column counts when it fits. -/
inductive Dtype where
  | float | bool | int | other
  deriving DecidableEq

/-- A frame with the types of its columns. -/
structure DailyFrame (Value : Type) extends Frame Value where
  dtype : String → Dtype

/-- What Python reads of the values of a daily frame, and the microseconds since the
    epoch of an instant, which are in its order. -/
structure DailySource (Value : Type) extends FrameSource Value where
  epochUs : Instant → Int
  epochUs_strictMono : StrictMono epochUs
  /-- `astimezone` of a wall clock without a timezone, by the machine's own. -/
  localInstant : Instant → Instant
  /-- A float64; none is infinite. -/
  float64 : Value → Option Float64
  int64 : Value → JsonNumber
  bool : Value → Bool
  /-- `pd.isna`. -/
  missing : Value → Bool
  /-- `json.loads(json.dumps(item))` of the value's plain item; none has no strict JSON. -/
  plainJson : Value → Option Json

/-- What stops a daily table. -/
inductive DailyError where
  | actions (error : ActionsError)
  | missingColumns (missing : List String)
  | invalidTradeDate (value : Text)
  | emptySymbol
  | duplicateKeys (sample : List (Nat × Text))
  | invalidAvailableAt (value : Text)
  | noTimezone
  | notJson
  deriving DecidableEq

variable {Value : Type}

namespace DailyFrame

variable (daily : DailyFrame Value)

/-- `daily[name]`. -/
def series (name : String) : List Value := daily.rows.map fun row => row name

def renames : Bool := "symbol" ∉ daily.columns ∧ "ts_code" ∈ daily.columns

def symbolSource : String := if daily.renames then "ts_code" else "symbol"

/-- The columns, `ts_code` under the name it is kept by. -/
def storedColumns : List String :=
  if daily.renames then daily.columns.set (daily.columns.idxOf "ts_code") "symbol"
  else daily.columns

/-- The required columns that are not there. -/
def missingColumns : List String :=
  ["trade_date", "open", "close", "pre_close", "symbol"].filter fun column =>
    column ∉ daily.storedColumns

end DailyFrame

def tradeDate (source : DailySource Value) (value : Value) : Except DailyError Nat :=
  match dateText source.toFrameSource (source.str value) with
  | some day => .ok day
  | none => .error (.invalidTradeDate (source.str value))

/-- The dates and symbols of the rows, as codes into their sorted values. -/
structure DailyKeys where
  dateCodes : List Nat
  dates : List Nat
  symbolCodes : List Nat
  symbols : List Text

/-- One number a row that names its date and symbol. -/
def DailyKeys.keys (keys : DailyKeys) : List Nat :=
  List.zipWith (fun date symbol => date * max keys.symbols.length 1 + symbol)
    keys.dateCodes keys.symbolCodes

/-- Up to five of the keys that stand twice. -/
def DailyKeys.sample (keys : DailyKeys) : List (Nat × Text) :=
  let ordered := keys.keys.insertionSort (· ≤ ·)
  let repeated := sortedDistinct ((ordered.tail.zip ordered).filterMap fun pair =>
    if pair.1 = pair.2 then some pair.1 else none)
  (repeated.take 5).filterMap fun key => do
    let date ← keys.dates[key / keys.symbols.length]?
    let symbol ← keys.symbols[key % keys.symbols.length]?
    return (date, symbol)

/-- The business keys of the rows; none stands twice. -/
def readKeys [DecidableEq Value] (source : DailySource Value) (daily : DailyFrame Value) :
    Except DailyError DailyKeys := do
  let dated ← normalizedCodes (daily.series "trade_date") (tradeDate source)
  let named ← normalizedCodes (daily.series daily.symbolSource) fun value =>
    (.ok (symbolText (source.str value)) : Except DailyError Text)
  let keys : DailyKeys := ⟨dated.1, dated.2, named.1, named.2⟩
  if [] ∈ named.2 then throw .emptySymbol
  if daily.rows.length ≠ 0 ∧ keys.keys.dedup.length ≠ daily.rows.length then
    throw (.duplicateKeys keys.sample)
  return keys

/-- `_available_at`. -/
def availableAt (source : DailySource Value) (value : Value) : Except DailyError Instant :=
  match (source.timestamp value).orElse fun _ => source.isoDateTime (source.str value) with
  | none => .error (.invalidAvailableAt (source.str value))
  | some (.naive _) => .error .noTimezone
  | some (.aware instant) => .ok instant

/-- `_default_available_at`. -/
def defaultAvailableAt (day : Nat) : Instant := Instant.atMinute day (17 * 60 + 30) (by decide)

/-- The code of each row's `available_at`, and the instants of the codes. -/
def readStamps [DecidableEq Value] (source : DailySource Value) (daily : DailyFrame Value)
    (keys : DailyKeys) : Except DailyError (List Nat × List Instant) :=
  if "available_at" ∈ daily.storedColumns then
    let coded := factorize (daily.series "available_at")
    (coded.2.mapM (availableAt source)).map fun stamps => (coded.1, stamps)
  else .ok (keys.dateCodes, keys.dates.map defaultAvailableAt)

/-- The keys the rows are sorted by: the instant, the date and the symbol. -/
def sortKeysOf (epoch : List Int) (keys : DailyKeys) : List (Int ×ₗ Nat ×ₗ Nat) :=
  List.zipWith (fun instant key => toLex (instant, key)) epoch
    (List.zipWith (fun date symbol => toLex (date, symbol)) keys.dateCodes keys.symbolCodes)

/-- `_json_scalar`. -/
def jsonScalar (source : DailySource Value) (value : Value) : Option Json :=
  match source.timestamp value with
  | some (.aware instant) => some (str (source.iso instant))
  | some (.naive wall) => some (str (source.iso (source.localInstant wall)))
  | none => if source.missing value then some null else source.plainJson value

/-- A value that has to have strict JSON. -/
def strictJson {α : Type} : Option α → Except DailyError α
  | some v => .ok v
  | none => .error .notJson

/-- The column of an object series: missing values are one more value, null. -/
def codedColumn [DecidableEq Value] (source : DailySource Value) (values : List Value)
    (order : List Nat) : Except DailyError Column := do
  let raw := firstMet (values.filter fun value => !source.missing value)
  let uniques ← raw.mapM fun value => strictJson (jsonScalar source value)
  let codes := values.map fun value =>
    if source.missing value then uniques.length else raw.idxOf value
  let stored := if values.any source.missing then uniques ++ [null] else uniques
  return ⟨.coded (gather codes order) stored, none⟩

/-- `_frame_column`. -/
def frameColumn [DecidableEq Value] (source : DailySource Value) (dtype : Dtype)
    (values : List Value) (order : List Nat) : Except DailyError Column :=
  match dtype with
  | .float => do
    let floats ← values.mapM fun value => strictJson (source.float64 value)
    return ⟨.float (gather floats order), none⟩
  | .bool => .ok ⟨.bool (gather (values.map source.bool) order), none⟩
  | .int => .ok ⟨.int (gather (values.map source.int64) order), none⟩
  | .other => codedColumn source values order

/-- A trade date's text. -/
def dateJson (day : Nat) : Json := str (Nat.toDigits 10 day)

def stampColumn (source : DailySource Value) (codes : List Nat) (stamps : List Instant)
    (order : List Nat) : Column :=
  ⟨.coded (gather codes order) (stamps.map fun stamp => str (source.iso stamp)), none⟩

/-- The column the store keeps under a name. -/
def storeColumn [DecidableEq Value] (source : DailySource Value) (daily : DailyFrame Value)
    (keys : DailyKeys) (stamped : List Nat × List Instant) (order : List Nat) (name : String) :
    Except DailyError Column :=
  if name = "trade_date" then
    .ok ⟨.coded (gather keys.dateCodes order) (keys.dates.map dateJson), none⟩
  else if name = "symbol" then
    .ok ⟨.coded (gather keys.symbolCodes order) (keys.symbols.map str), none⟩
  else if name = "available_at" then .ok (stampColumn source stamped.1 stamped.2 order)
  else frameColumn source (daily.dtype name) (daily.series name) order

/-- The store of the frame; `available_at` is in it in any case. -/
def buildStore [DecidableEq Value] (source : DailySource Value) (daily : DailyFrame Value)
    (keys : DailyKeys) (stamped : List Nat × List Instant) (order : List Nat) :
    Except DailyError (Dict Text Column) := do
  let columns ← daily.storedColumns.mapM fun name =>
    (storeColumn source daily keys stamped order name).map fun column => (name.toList, column)
  let store := Dict.ofList columns
  return if availableAtKey ∈ store.keys then store
    else store.set availableAtKey (stampColumn source stamped.1 stamped.2 order)

structure DailyMarketData where
  chunk : Chunk
  tradeDates : List Nat
  dayRows : Dict Nat (List Nat)
  distributions : ExDates

/-- The rows of each trading day in store order. -/
def dayIndex (keys : DailyKeys) (order : List Nat) : Dict Nat (List Nat) :=
  let byDate := gather keys.dateCodes order
  let bounds := (cumsum 0 (bincount byDate keys.dates.length)).dropLast
  if order = [] then Dict.empty
  else Dict.ofList (keys.dates.zip (splitAt (argsort byDate) 0 bounds))

namespace DailyMarketData

/-- `DailyMarketData(daily, corporate_actions)`. -/
def load [DecidableEq Value] (source : DailySource Value) (daily : DailyFrame Value)
    (actions : Option (Frame Value)) : Except DailyError DailyMarketData := do
  let distributions ←
    (distributionsByExDate source.toFrameSource actions).mapError DailyError.actions
  if daily.missingColumns ≠ [] then throw (.missingColumns daily.missingColumns)
  let keys ← readKeys source daily
  let stamped ← readStamps source daily keys
  let epoch := gather (stamped.2.map source.epochUs) stamped.1
  let order := argsort (sortKeysOf epoch keys)
  let store ← buildStore source daily keys stamped order
  return {
    chunk := ⟨store, daily.rows.length, gather epoch order, stamped.2⟩
    tradeDates := keys.dates
    dayRows := dayIndex keys order
    distributions }

variable (market : DailyMarketData)

/-- `_table`, over the heap of its one chunk. -/
def heap : Heap := Heap.add {} market.chunk

def table : BarTable := { chunks := [0] }

/-- `visible_count`; none is an `inference_at` without a timezone. -/
def visibleCount (source : DailySource Value) (inferenceAt : PyDateTime) : Option Nat :=
  match inferenceAt with
  | .naive _ => none
  | .aware instant =>
    some (market.chunk.epoch.takeWhile fun us => us ≤ source.epochUs instant).length

/-- `visible_at`. -/
def visibleAt (source : DailySource Value) (inferenceAt : PyDateTime) : Option (List Row) := do
  let count ← market.visibleCount source inferenceAt
  let rows ← table.rows market.heap count
  return rows.2

/-- The symbol of a row, as the chunk codes it. -/
def symbolAt (offset : Nat) : Option Text :=
  match (market.chunk.columns.get? symbolKey).bind fun column => column.value offset with
  | some (str symbol) => some symbol
  | _ => none

/-- `bars_for_day`: where each symbol's bar of the day stands. -/
def barsForDay (day : Nat) : Dict Text Nat :=
  Dict.ofList (((market.dayRows.get? day).getD []).filterMap fun offset =>
    (market.symbolAt offset).map fun symbol => (symbol, offset))

end DailyMarketData

end Replay

end AutoTrade
