import AutoTrade.Common.Months
import AutoTrade.Environment.Data.ConcatRows

/-!
# Reading the store of fundamental events

`read_fundamental_events` of `autotrade/environment/data/fundamental_events.py`, which skips
the month partitions that lie outside its window. Months are numbers that order as their
`YYYYMM` texts do.
-/

namespace AutoTrade

open CanonicalCell LakeCell Frame

def nanosPerHour : Int := 3600 * 1000000000

def nanosPerDay : Int := 24 * nanosPerHour

/-- A timezone-aware `pd.Timestamp`: its nanoseconds since the first of January of the year 1 in
UTC, and how far its zone is ahead of UTC. -/
structure Timestamp where
  nanos : Int
  offset : Int

/-- `strftime("%Y%m")`, which is that of the timestamp's own zone. -/
def Timestamp.month (t : Timestamp) : Nat := monthOf ((t.nanos + t.offset) / nanosPerDay).toNat

/-- `tz_convert(CN_TZ)`. -/
def Timestamp.inCn (t : Timestamp) : Timestamp := { t with offset := 8 * nanosPerHour }

/-- A cell of an event, with the instant pandas parses it as. -/
class EventCell (Cell : Type) extends LakeCell Cell where
  /-- `to_cn_timestamps`, at one cell. -/
  stamp : Cell → Option Int
  /-- `notna`. -/
  notna : Cell → Bool
  missing_na : notna missing = false
  /-- The text of an instant, `stamp_text`. -/
  stamped : Int → Cell
  stamp_stamped : ∀ t, stamp (stamped t) = some t

open EventCell

variable {Cell : Type} [EventCell Cell]

/-- `FIRST_SEEN_COLUMN`. -/
def firstSeenColumn : String := "first_seen_at"

/-- `visible_from`, at one row: the later of the two stamps. -/
def visibleFrom (events : Frame Cell) (row : String → Cell) : Option Int :=
  let available := stamp (row "available_at")
  if firstSeenColumn ∉ events.columns ∨ notna (row firstSeenColumn) = false then available
  else match stamp (row firstSeenColumn), available with
    | some seen, some available => some (if seen > available then seen else available)
    | _, _ => available

/-- The partitions of the store by dataset, each named by a month; without a root there is none. -/
abbrev EventStore (Cell : Type) : Type := Option (String → Option (List (Nat × Frame Cell)))

/-- What the reader raises. -/
inductive EventReadError where
  | missingRoot
  | missingPartitions (maxMonth : Nat) (datasets : List String)
  | noPartitions (maxMonth : Nat) (datasets : List String)
  | missingColumn (name : String)

/-- `sorted(dataset_dir.glob("available_month=*.parquet"))`. -/
def sortedPartitions (store : EventStore Cell) (dataset : String) : List (Nat × Frame Cell) :=
  ((store.bind fun directories => directories dataset).getD []).insertionSort
    fun x y => x.1 ≤ y.1

/-- The partitions of a dataset that are not past the window. -/
def reachedPartitions (store : EventStore Cell) (maxMonth : Nat) (observed : Bool)
    (dataset : String) : List (Nat × Frame Cell) :=
  (sortedPartitions store dataset).filter fun partition =>
    ¬ (partition.1 > maxMonth ∧ observed = true)

/-- The frames of a dataset that are read. -/
def readFrames (store : EventStore Cell) (minMonth : Option Nat) (maxMonth : Nat)
    (observed : Bool) (dataset : String) : List (Frame Cell) :=
  (((reachedPartitions store maxMonth observed dataset).filter fun partition =>
    ¬ ∃ month ∈ minMonth, partition.1 < month).map Prod.snd).filter fun df => !df.isEmpty

/-- `visible`: whether the window shows a row from this instant on. -/
def inTimeWindow (minTs : Option Timestamp) (maxTs : Timestamp) (instant : Option Int) : Bool :=
  match instant with
  | none => false
  | some t => t ≤ maxTs.nanos ∧ ∀ bound ∈ minTs, bound.nanos ≤ t

/-- When a row counts from: `observed=False` applies the vendor rule alone. -/
def eventInstant (observed : Bool) (events : Frame Cell) (row : String → Cell) : Option Int :=
  if observed then visibleFrom events row else stamp (row "available_at")

/-- `read_fundamental_events`: the rows, and the datasets of those whose stamp is unparseable,
which `nat_counts` counts. -/
def readFundamentalEvents (store : EventStore Cell) (maxTs : Timestamp) (datasets : List String)
    (minTs : Option Timestamp) (requirePartitions observed : Bool) :
    Except EventReadError (Frame Cell × List Text) :=
  let maxMonth := maxTs.month
  let reached := reachedPartitions store maxMonth observed
  let missing := datasets.filter fun dataset => reached dataset = []
  let frames := datasets.flatMap (readFrames store (minTs.map Timestamp.month) maxMonth observed)
  if datasets = [] then .ok (⟨[], []⟩, [])
  else if requirePartitions ∧ store.isNone then .error .missingRoot
  else if requirePartitions ∧ missing ≠ [] then .error (.missingPartitions maxMonth missing)
  else if requirePartitions ∧ datasets.flatMap reached = [] then
    .error (.noPartitions maxMonth datasets)
  else if frames = [] then .ok (⟨[], []⟩, [])
  else
    let events := concatRows frames
    if "available_at" ∉ events.columns then .error (.missingColumn "available_at")
    else
      let unparseable := events.rows.filter fun row => (stamp (row "available_at")).isNone
      let visible := events.rows.filter fun row =>
        inTimeWindow minTs maxTs (eventInstant observed events row)
      .ok ({ events with rows := visible }, unparseable.map fun row => str (row "dataset"))

end AutoTrade
