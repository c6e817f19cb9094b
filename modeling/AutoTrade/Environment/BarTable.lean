import AutoTrade.Common.JsonObject
import AutoTrade.Common.Time

/-!
# Tables of bars

Append-only rows in arrival order. The columns a row is kept in decode to the
same JSON values, so a row is its record here, with the instant its
`available_at` names.
-/

namespace AutoTrade

open Json JsonLines JsonObject

/-- What is used of Python's `datetime` texts. -/
structure DateTimes where
  /-- `isoformat`. -/
  iso : Instant → Text
  /-- `_parse_datetime`, into the market's timezone. -/
  parse : Text → Option Instant
  parse_iso : ∀ t, parse (iso t) = some t

/-- A bar of a table. -/
structure BarRow (clock : DateTimes) where
  fields : JsonObject
  availableAt : Instant
  stamped : (fields.textField "available_at").bind clock.parse = some availableAt

namespace BarRow

variable {clock : DateTimes}

@[ext] theorem ext {row other : BarRow clock} (fields : row.fields = other.fields) :
    row = other := by
  obtain ⟨left, t, stamped⟩ := row
  obtain ⟨right, u, stamped'⟩ := other
  subst fields
  obtain rfl : t = u := Option.some.inj (stamped.symm.trans stamped')
  rfl

/-- `_strict_json_identity` of the row's record. -/
def identity (row : BarRow clock) : Json := sortKeys (obj row.fields)

end BarRow

/-- The first rows of a table are the same bars as another's. -/
def prefixMatches {clock : DateTimes} (table other : List (BarRow clock)) (count : Nat) : Bool :=
  count ≤ table.length && count ≤ other.length &&
    (table.take count).map BarRow.identity = (other.take count).map BarRow.identity

/-- What the bar contract refuses. -/
inductive BarError where
  | notObject
  | badAvailableAt
  /-- Strategy context contains data not visible at inference time. -/
  | notVisible
  /-- Bar `available_at` must be monotonic. -/
  | notMonotonic
  deriving DecidableEq

def readObjects (records : List Json) : Except BarError (List JsonObject) :=
  records.mapM fun
    | obj fields => .ok fields
    | _ => .error .notObject

/-- The rows' `available_at` never decreases, as `_monotonic` says. -/
def BarsInOrder {clock : DateTimes} (table : List (BarRow clock)) : Prop :=
  table.Pairwise fun row later => row.availableAt ≤ later.availableAt

instance {clock : DateTimes} (table : List (BarRow clock)) : Decidable (BarsInOrder table) :=
  inferInstanceAs (Decidable (List.Pairwise _ _))

/-- The rows of decoded records, available by the decision and, behind the row `after`
    of a table, never earlier than the row before. The first rows of a table are
    taken in any order. -/
def readRows (clock : DateTimes) (inferenceAt : Instant) (after : Option Instant) :
    Option Instant → List JsonObject → Except BarError (List (BarRow clock))
  | _, [] => .ok []
  | previous, fields :: rest =>
    match stamped : (fields.textField "available_at").bind clock.parse with
    | none => .error .badAvailableAt
    | some availableAt =>
      if inferenceAt < availableAt then .error .notVisible
      else if after.isSome && previous.any fun before => availableAt < before then
        .error .notMonotonic
      else (readRows clock inferenceAt after (some availableAt) rest).map
        fun rows => ⟨fields, availableAt, stamped⟩ :: rows

/-- `BarTable.extended` with `monotonic`, of decoded records. The latest row of a table
    in order is its last. -/
def extended {clock : DateTimes} (table : List (BarRow clock)) (records : List Json)
    (inferenceAt : Instant) : Except BarError (List (BarRow clock)) := do
  if ¬ BarsInOrder table then throw .notMonotonic
  let objects ← readObjects records
  let after := table.getLast?.map BarRow.availableAt
  let rows ← readRows clock inferenceAt after after objects
  return table ++ rows

end AutoTrade
