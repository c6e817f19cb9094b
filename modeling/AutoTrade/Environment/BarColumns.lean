import AutoTrade.Environment.BarTable
import AutoTrade.Misc.Dict
import AutoTrade.Misc.Pieces
import Mathlib.Data.Int.ConditionallyCompleteOrder

/-!
# The columns of a bar table

A table of bars as it is kept (`autotrade/environment/strategy.py`): every accepted
batch of records is a chunk of typed columns, and a table is the chunks it was
extended by. A table shares the chunks of the one it extends, so the chunks are
objects of a heap, known to the tables by their places in it; what changes in them
is their cache of rows alone.
-/

namespace AutoTrade

namespace BarColumns

open Json JsonLines

/-- A JSON object as Python holds it: one value a key. -/
abbrev Record := Dict Text Json

def availableAtKey : Text := "available_at".toList

def symbolKey : Text := "symbol".toList

/-- `_strict_json_identity`: the same members in any order are the same object. -/
def strictIdentity (value : Json) : Json := sortKeys value

def recordIdentity (record : Record) : Json := strictIdentity (obj record.entries)

def hexText : Nat → Nat → Text
  | 0, _ => []
  | width + 1, n => hexText width (n / 16) ++ [hexDigit (n % 16)]

/-- A character in the `repr` of a text between quotes `quote`. -/
def reprChar (printable : Char → Bool) (quote c : Char) : Text :=
  if c = quote ∨ c = '\\' then ['\\', c]
  else if c = '\t' then "\\t".toList
  else if c = '\n' then "\\n".toList
  else if c = '\r' then "\\r".toList
  else if c.toNat < 32 ∨ c.toNat = 127 then "\\x".toList ++ hexText 2 c.toNat
  else if c.toNat < 127 ∨ printable c then [c]
  else if c.toNat < 256 then "\\x".toList ++ hexText 2 c.toNat
  else if c.toNat < 65536 then "\\u".toList ++ hexText 4 c.toNat
  else "\\U".toList ++ hexText 8 c.toNat

def reprText (printable : Char → Bool) (t : Text) : Text :=
  let quote := if '\'' ∈ t ∧ '"' ∉ t then '"' else '\''
  quote :: (t.flatMap (reprChar printable quote) ++ [quote])

mutual

/-- `repr(value)`; a number's text is its `repr`. -/
def pyRepr (printable : Char → Bool) : Json → Text
  | null => "None".toList
  | .bool b => if b then "True".toList else "False".toList
  | num n => n.text
  | str t => reprText printable t
  | arr items => '[' :: ([',', ' '].intercalate (reprItems printable items) ++ [']'])
  | obj fields => '\x7b' :: ([',', ' '].intercalate (reprFields printable fields) ++ ['\x7d'])

def reprItems (printable : Char → Bool) : List Json → List Text
  | [] => []
  | v :: rest => pyRepr printable v :: reprItems printable rest

def reprFields (printable : Char → Bool) : List (Text × Json) → List Text
  | [] => []
  | (key, v) :: rest =>
    (reprText printable key ++ ": ".toList ++ pyRepr printable v) :: reprFields printable rest

end

/-- `str(value)`; `printable` is what `str.isprintable` says of a character. -/
def pyStr (printable : Char → Bool) : Json → Text
  | str t => t
  | v => pyRepr printable v

/-- The types a strict JSON value has in Python. -/
inductive PyType where
  | none | bool | int | float | str | list | dict
  deriving DecidableEq

/-- A number written with a point or an exponent is a float. -/
def isFloat (n : JsonNumber) : Bool := n.text.any fun c => c ∈ ".eE".toList

def pyType : Json → PyType
  | null => .none
  | .bool _ => .bool
  | num n => if isFloat n then .float else .int
  | str _ => .str
  | arr _ => .list
  | obj _ => .dict

/-- `{type(item) for item in values} == kinds`. -/
def kindsAre (values : List Json) (kinds : List PyType) : Bool :=
  (values.all fun v => pyType v ∈ kinds) && kinds.all fun kind => kind ∈ values.map pyType

/-- The value of an int's text. -/
def intValue (n : JsonNumber) : Int :=
  let digits := fun text : Text => Nat.ofDigits 10 (text.reverse.map JsonNumber.digitValue)
  match n.text with
  | '-' :: text => -(digits text : Int)
  | text => digits text

def fitsInt64 (n : JsonNumber) : Bool := -2 ^ 63 ≤ intValue n && intValue n < 2 ^ 63

/-- A float64 of a column; `nan` stands for null. -/
inductive Float64 where
  | nan
  | num (n : JsonNumber)

/-- The typed array of a column; `coded` has codes into the values stored once. -/
inductive ColumnValues where
  | float (values : List Float64)
  | int (values : List JsonNumber)
  | bool (values : List Bool)
  | coded (codes : List Nat) (uniques : List Json)

/-- `_Column`; without `present` every row carries the key. -/
structure Column where
  values : ColumnValues
  present : Option (List Bool) := none

/-- `math.nan if item is None else item`. -/
def toFloat : Json → Float64
  | num n => .num n
  | _ => .nan

def number? : Json → Option JsonNumber
  | num n => some n
  | _ => none

def bool? : Json → Option Bool
  | .bool b => some b
  | _ => none

/-- What a value is looked up by: a text by itself, any other by its identity. -/
def columnKey : Json → Json
  | str t => str t
  | v => strictIdentity v

/-- The values coded so far. -/
structure Coding where
  uniques : List Json := []
  lookup : Dict Json Nat := Dict.empty
  codes : List Nat := []

/-- A turn of the loop that codes a column. -/
def Coding.push (coding : Coding) (item : Json) : Coding :=
  match coding.lookup.get? (columnKey item) with
  | some code => { coding with codes := coding.codes ++ [code] }
  | none =>
    { uniques := coding.uniques ++ [item]
      lookup := coding.lookup.set (columnKey item) coding.uniques.length
      codes := coding.codes ++ [coding.uniques.length] }

namespace Column

def fromValues (values : List Json) (present : Option (List Bool)) : Column :=
  if kindsAre values [.float] then ⟨.float (values.map toFloat), present⟩
  else if kindsAre values [.float, .none] then ⟨.float (values.map toFloat), present⟩
  -- an int that does not fit raises OverflowError, and the column is coded
  else if kindsAre values [.int] && (values.filterMap number?).all fitsInt64 then
    ⟨.int (values.filterMap number?), present⟩
  else if kindsAre values [.bool] then ⟨.bool (values.filterMap bool?), present⟩
  else
    let coding := values.foldl Coding.push {}
    ⟨.coded coding.codes coding.uniques, present⟩

def value (column : Column) (offset : Nat) : Option Json :=
  match column.values with
  | .coded codes uniques => codes[offset]?.bind fun code => uniques[code]?
  | .float values => values[offset]?.map fun
    | .nan => null
    | .num n => num n
  | .int values => values[offset]?.map num
  | .bool values => values[offset]?.map Json.bool

/-- `column.present is None or column.present[offset]`. -/
def carries (column : Column) (offset : Nat) : Bool :=
  match column.present with
  | none => true
  | some present => present.getD offset false

/-- The value of a row that carries the key. -/
def cell (column : Column) (offset : Nat) : Option Json :=
  if column.carries offset then column.value offset else none

end Column

/-- `_Chunk`, its cache of rows aside. -/
structure Chunk where
  columns : Dict Text Column
  length : Nat
  /-- `available_at` of each row in microseconds since the epoch. -/
  epoch : List Int
  /-- The instant of each text of the `available_at` column. -/
  stamps : List Instant

namespace Chunk

def sparse (chunk : Chunk) : Bool := chunk.columns.values.any fun column => column.present.isSome

def availableAt (chunk : Chunk) (offset : Nat) : Option Instant :=
  match (chunk.columns.get? availableAtKey).map Column.values with
  | some (.coded codes _) => codes[offset]?.bind fun code => chunk.stamps[code]?
  | _ => none

def record (chunk : Chunk) (offset : Nat) : Record :=
  chunk.columns.filterMap fun _ column => column.cell offset

end Chunk

/-- What a table takes of its surroundings: Python's `datetime` texts, the order of
    whose instants the microseconds since the epoch follow (the market's timezone keeps
    one offset), and what a record is read as, the dict itself or what `_json_mapping`
    makes of it; none is a record that is refused. -/
structure BarSource (ρ : Type) extends DateTimes where
  epochUs : Instant → Int
  epochUs_strictMono : StrictMono epochUs
  /-- A dict whose keys are strings. -/
  decoded : ρ → Option Record
  jsonMapping : ρ → Option Record

variable {ρ : Type}

/-- The rows of a batch in the making: `available_at` so far. -/
structure StampScan where
  parsed : Dict Text (Instant × Nat) := Dict.empty
  stamps : List Instant := []
  uniques : List Json := []
  codes : List Nat := []
  epoch : List Int := []
  ordered : Bool := true
  previous : Option Instant

/-- The tests of a row's instant, and its place in the columns. -/
def StampScan.place (source : BarSource ρ) (inferenceAt after : Option Instant) (scan : StampScan)
    (stamp : Instant) (code : Nat) : Except BarError StampScan :=
  let below := scan.previous.any fun previous => stamp < previous
  if inferenceAt.any fun decision => decision < stamp then .error .notVisible
  else if below && after.isSome then .error .notMonotonic
  else .ok { scan with
    ordered := scan.ordered && !below
    previous := some stamp
    codes := scan.codes ++ [code]
    epoch := scan.epoch ++ [source.epochUs stamp] }

/-- A turn of the loop over the records. -/
def StampScan.push (source : BarSource ρ) (inferenceAt after : Option Instant) (scan : StampScan)
    (record : Record) : Except BarError StampScan :=
  match record.get? availableAtKey with
  | some (str raw) =>
    match scan.parsed.get? raw with
    | some (stamp, code) => scan.place source inferenceAt after stamp code
    | none =>
      match source.parse raw with
      | none => .error .badAvailableAt
      | some stamp =>
        { scan with
          parsed := scan.parsed.set raw (stamp, scan.stamps.length)
          stamps := scan.stamps ++ [stamp]
          uniques := scan.uniques ++ [str raw] }.place source inferenceAt after stamp
          scan.stamps.length
  | _ => .error .badAvailableAt

/-- The keys of the records, in the order they are first met. -/
def columnKeys (rows : List Record) : List Text :=
  rows.foldl
    (fun keys record =>
      if record.entries.length ≠ keys.length ∨ ∃ key ∈ record.keys, key ∉ keys then
        keys ++ record.keys.filter fun key => key ∉ keys
      else keys) []

/-- The column of a key other than `available_at`. -/
def columnOf (rows : List Record) (key : Text) : Column :=
  let values := rows.map fun record => record.get? key
  let present := if values.any Option.isNone then some (values.map Option.isSome) else none
  .fromValues (values.map fun value => value.getD null) present

def readBar (source : BarSource ρ) (decodedJson : Bool) (value : ρ) : Except BarError Record :=
  match if decodedJson then source.decoded value else source.jsonMapping value with
  | some record => .ok record
  | none => .error .notObject

/-- `_chunk_from_records`: the chunk, and whether its `available_at` never decreases. -/
def chunkFromRecords (source : BarSource ρ) (records : List ρ) (inferenceAt : Option Instant)
    (decodedJson : Bool) (after : Option Instant) : Except BarError (Chunk × Bool) := do
  let rows ← records.mapM (readBar source decodedJson)
  let scan ← rows.foldlM (StampScan.push source inferenceAt after) { previous := after }
  let columns := Dict.ofList ((columnKeys rows).map fun key =>
    (key, if key = availableAtKey then ⟨.coded scan.codes scan.uniques, none⟩
      else columnOf rows key))
  return (⟨columns, rows.length, scan.epoch, scan.stamps⟩, scan.ordered)

end BarColumns

end AutoTrade
