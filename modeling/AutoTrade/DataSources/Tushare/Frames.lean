import AutoTrade.Common.Text
import AutoTrade.Misc.Distinct
import Mathlib.Data.List.Dedup

/-!
# Frames and their business keys

The frames of `autotrade/data_sources/tushare/versions.py` and the comparison of
two of them on business keys. What a frame holds is compared in the canonical
text of its cells (`canonical_series`, `autotrade/environment/data/pit.py`), which
a column gets through a dict; nothing here depends on what that text is.
-/

namespace AutoTrade

/-- A cell with the texts Python reads it as, and what a dict takes it for. -/
class CanonicalCell (Cell : Type) where
  /-- `canonical_revision_value`. -/
  canonical : Cell → Text
  /-- `str`. -/
  str : Cell → Text
  /-- Whether a dict can hold the cell as a key. -/
  hashable : Cell → Bool
  /-- What a dict takes a cell for: `0.0` and `-0.0` are one key. -/
  Code : Type
  code : Cell → Code
  decidableCode : DecidableEq Code

attribute [instance] CanonicalCell.decidableCode

open CanonicalCell

structure Frame (Cell : Type) where
  columns : List String
  rows : List (String → Cell)

/-- `KEY_SEPARATOR`. -/
def keySeparator : Char := '\x1f'

/-- `_ROW_SEPARATOR`. -/
def rowSeparator : Char := '\x1e'

/-- A row in canonical text; a missing column reads as empty text. -/
abbrev RowText := String → Text

variable {Cell : Type} [CanonicalCell Cell]

namespace Frame

/-- `df.empty`. -/
def isEmpty (f : Frame Cell) : Bool := f.rows.isEmpty || f.columns.isEmpty

/-- `canonical_series` of a column, at one of its cells: the cells that are one key of
a dict get the text of the first of them. -/
def seriesText (cells : List Cell) (cell : Cell) : Text :=
  if cells.all hashable then ((cells.find? fun c => code c = code cell).map canonical).getD []
  else canonical cell

def column (f : Frame Cell) (name : String) : List Cell := f.rows.map fun row => row name

def rowText (f : Frame Cell) (row : String → Cell) : RowText := fun name =>
  if name ∈ f.columns then seriesText (f.column name) (row name) else []

/-- The rows in canonical text. -/
def texts (f : Frame Cell) : List RowText := f.rows.map f.rowText

/-- The key of a row, column by column. -/
def keyOf (keys : List String) (row : RowText) : List Text := keys.map row

/-- `_join_columns` of one row. -/
def joinColumns (columns : List String) (row : RowText) : Text :=
  joinTexts keySeparator (columns.map row)

/-- `key_strings`. -/
def keyStrings (f : Frame Cell) (keys : List String) : List Text := f.texts.map (joinColumns keys)

/-- The distinct keys of a frame. -/
def keysOf (f : Frame Cell) (keys : List String) : List Text := (f.keyStrings keys).dedup

/-- The rows of one key as one text: a repeated key is the multiset of its rows. -/
def signature (f : Frame Cell) (keys values : List String) (key : Text) : Text :=
  joinTexts rowSeparator
    (sortTexts ((f.texts.filter fun row => joinColumns keys row = key).map (joinColumns values)))

/-- Whether two frames have the same columns, in whatever order. -/
def sameColumns (f g : Frame Cell) : Bool :=
  f.columns.all (· ∈ g.columns) && g.columns.all (· ∈ f.columns)

/-- `frames_content_equal`. -/
def contentEqual (f g : Frame Cell) : Bool :=
  let columns := f.columns.dedup.insertionSort fun a b => a.toList ≤ b.toList
  let canon (h : Frame Cell) : List (List Text) :=
    (h.rows.map fun row => columns.map fun column => str (row column)).insertionSort (· ≤ ·)
  f.rows.length = g.rows.length && f.sameColumns g && canon f = canon g

end Frame

open Frame

/-- `KeyDiff`. -/
structure KeyDiff where
  oldKeys : Nat
  newKeys : Nat
  added : List Text
  removed : List Text
  changed : List Text

namespace KeyDiff

def restates (diff : KeyDiff) : Bool := diff.removed ≠ [] || diff.changed ≠ []

def empty (diff : KeyDiff) : Bool := diff.added = [] && diff.removed = [] && diff.changed = []

end KeyDiff

/-- The columns of either frame that are not keys. -/
def valueColumns (old new : Frame Cell) (keys : List String) : List String :=
  ((old.columns ++ new.columns).dedup.filter (· ∉ keys)).insertionSort
    fun a b => a.toList ≤ b.toList

/-- `diff_frames`. -/
def diffFrames (old new : Frame Cell) (keys : List String) : KeyDiff :=
  let values := valueColumns old new keys
  let oldKeys := old.keysOf keys
  let newKeys := new.keysOf keys
  { oldKeys := oldKeys.length
    newKeys := newKeys.length
    added := newKeys.filter (· ∉ oldKeys)
    removed := oldKeys.filter (· ∉ newKeys)
    changed := oldKeys.filter fun key =>
      key ∈ newKeys ∧ old.signature keys values key ≠ new.signature keys values key }

/-- `deduplicate_keys`: of the rows of a key the one whose text is smallest, column by column
in the frame's own order, and how many rows were dropped. -/
def deduplicateKeys (f : Frame Cell) (keys : List String) : Frame Cell × Nat :=
  if f.isEmpty ∨ ¬ keys.all (· ∈ f.columns) then (f, 0)
  else if (f.texts.map (keyOf keys)).Nodup then (f, 0)
  else
    let ordered := f.rows.zipIdx.insertionSort fun x y =>
      keyOf f.columns (f.rowText x.1) ≤ keyOf f.columns (f.rowText y.1)
    let kept := (firsts (fun row => keyOf keys (f.rowText row.1)) ordered).insertionSort
      fun x y => x.2 ≤ y.2
    ({ f with rows := kept.map Prod.fst }, f.rows.length - kept.length)

end AutoTrade
