import AutoTrade.Environment.Data.ConcatRows
import AutoTrade.Environment.Data.RevisionValue
import AutoTrade.Environment.Data.Partition

/-!
# Refreshing a window of a partition

`write_window_merged_partition` of `autotrade/data_sources/tushare/download.py` replaces the rows
a stored partition holds inside a window of dates with the vendor's answer to that window. The
types that pandas gives to the columns of the result are left out: a cell keeps its value.
-/

namespace AutoTrade

open CanonicalCell RevisionValue LakeCell

/-- `normalize_date_key`. -/
def normalizeDateKey {Cell : Type} [LakeCell Cell] (digits : DecimalDigits) (value : Cell) : Text :=
  let key := ((dateText value).filter fun c => (digits.value c).isSome).take 8
  if key.length = 8 then key else []

/-- The dates of a refresh, first and last. -/
structure DateWindow where
  startDate : Text
  endDate : Text

/-- `keys.between(start_date, end_date)`, at one key. -/
def DateWindow.holds (window : DateWindow) (key : Text) : Bool :=
  window.startDate ≤ key ∧ key ≤ window.endDate

/-- A frame that comes from a file or an answer: without columns it has no rows. -/
structure Table (Cell : Type) extends Frame Cell where
  cells : columns = [] → rows = []

variable {Cell : Type} [LakeCell Cell] (digits : DecimalDigits)

namespace Frame

/-- The frame with a column of blanks, if it does not have the column. -/
def dated (f : Frame Cell) (dateColumn : String) : Frame Cell :=
  if dateColumn ∈ f.columns then f
  else
    { columns := f.columns ++ [dateColumn]
      rows := f.rows.map fun row => Function.update row dateColumn blank }

/-- What `drop_duplicates` compares of a row. -/
def rowKey (keyColumns : List String) (row : String → Cell) : List (Code Cell) :=
  keyColumns.map fun column => code (row column)

/-- Whether rows are told apart by a list of columns. -/
def Keyed (keyColumns columns : List String) : Prop :=
  keyColumns ≠ [] ∧ ∀ key ∈ keyColumns, key ∈ columns

instance (keyColumns columns : List String) : Decidable (Keyed keyColumns columns) := by
  unfold Keyed
  infer_instance

end Frame

open Frame

/-- The first of the date columns that either frame has. -/
def windowDateColumn (existing refreshed : Frame Cell) (dateColumns : List String) :
    Option String :=
  dateColumns.find? fun column =>
    column ≠ "" ∧ (column ∈ existing.columns ∨ column ∈ refreshed.columns)

/-- `date_series_in_window`, at one row. -/
def dateInWindow (window : DateWindow) (dateColumn : String) (row : String → Cell) : Bool :=
  window.holds (normalizeDateKey digits (row dateColumn))

/-- `merge_existing_window_rows`: the partition after the refresh, and how many of its rows the
window held. -/
def mergeExistingWindowRows (existing refreshed : Frame Cell) (window : DateWindow)
    (dateColumns keyColumns : List String) : Frame Cell × Nat :=
  if existing.isEmpty then (refreshed, 0)
  else match windowDateColumn existing refreshed dateColumns with
    | none => (refreshed, existing.rows.length)
    | some dateColumn =>
      let existing := existing.dated dateColumn
      let refreshed := refreshed.dated dateColumn
      let inside := existing.rows.filter (dateInWindow digits window dateColumn)
      let outside := existing.rows.filter fun row => !dateInWindow digits window dateColumn row
      let merged := concatRows [{ existing with rows := outside }, refreshed]
      if Keyed keyColumns merged.columns then
        ({ merged with rows := lasts (rowKey keyColumns) merged.rows }, inside.length)
      else (merged, inside.length)

/-- `DefectiveAnswer`, with its text. -/
structure DefectiveAnswer where
  message : Text

/-- The text of the answer that lacks what the partition holds. -/
def DefectiveAnswer.noRows (apiName : Text) (window : DateWindow) (held : Nat) : DefectiveAnswer :=
  ⟨apiName ++ " answered no rows for ".toList ++ window.startDate ++ "-".toList ++ window.endDate ++
    ", where the partition holds ".toList ++ JsonNumber.digitsOf held⟩

/-- The frame that `write_window_merged_partition` publishes. -/
def windowMergedPartition (apiName : Text) (current : Option (Frame Cell)) (refreshed : Frame Cell)
    (window : DateWindow) (dateColumns keyColumns : List String) :
    Except DefectiveAnswer (Frame Cell) :=
  match current with
  | none => .ok refreshed
  | some current =>
    let (df, held) := mergeExistingWindowRows digits current refreshed window dateColumns keyColumns
    if refreshed.isEmpty ∧ held ≠ 0 then .error (.noRows apiName window held) else .ok df

/-- What `publish` returns. -/
inductive PublishOutcome where
  | unchanged | appended | replaced | restated | staged | defect
  deriving DecidableEq

/-- `WRITTEN_OUTCOMES`. -/
def PublishOutcome.written : PublishOutcome → Bool
  | .appended | .replaced | .restated => true
  | .unchanged | .staged | .defect => false

/-- What is handed to `publish`: the frame, the window that was merged, and the rest as it came. -/
structure PublishRequest (Cell : Type) where
  frame : Frame Cell
  apiName : Text
  mergeExistingWindow : Option DateWindow
  fields : List String
  keyColumns : List String
  deduplicate : Bool
  current : Option (Frame Cell)

/-- `write_window_merged_partition`, with the partition read from a state that `publish` changes. -/
def writeWindowMergedPartition {σ : Type} (stored : σ → Option (Frame Cell))
    (publish : PublishRequest Cell → σ → σ × PublishOutcome) (apiName : Text)
    (refreshed : Frame Cell) (fields keyColumns dateColumns : List String) (window : DateWindow)
    (deduplicate : Bool) (state : σ) : σ × Except DefectiveAnswer (Bool × Nat) :=
  let current := stored state
  let keys := if deduplicate then [] else keyColumns
  match windowMergedPartition digits apiName current refreshed window dateColumns keys with
  | .error defect => (state, .error defect)
  | .ok df =>
    let request : PublishRequest Cell :=
      { frame := df
        apiName := apiName
        mergeExistingWindow := current.map fun _ => window
        fields := if df.columns = [] then fields else df.columns
        keyColumns := keyColumns
        deduplicate := deduplicate
        current := current }
    let (after, outcome) := publish request state
    (after, .ok (outcome.written, if outcome.written then df.rows.length else 0))

end AutoTrade
