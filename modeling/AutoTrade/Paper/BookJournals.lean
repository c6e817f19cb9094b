import AutoTrade.Misc.Dict
import AutoTrade.Paper.Storage

/-!
# The journals of a book

`autotrade/paper/verdict.py`, `_journals` as far as the rows it reads, and
`autotrade/paper/book.py`, `book_status`, over a book's directory. The fills of corrected
keys are replaced among the rows in `Paper.Verdict`.
-/

namespace AutoTrade

namespace BookJournals

open Json JsonLines Storage Utf8

/-- The journals by their names. -/
abbrev Directory := Dict Text Bytes

/-- A file, empty where it is missing. -/
def Directory.file (dir : Directory) (name : Text) : Bytes := (dir.get? name).getD []

def equityName : Text := "equity_daily.jsonl".toList

def correctionsName : Text := "corrections.jsonl".toList

def verdictLogName : Text := "verdict.jsonl".toList

/-- `executions_*.jsonl`. -/
def isExecutions (name : Text) : Bool :=
  "executions_".toList.isPrefixOf name && ".jsonl".toList.isSuffixOf name

/-- `row.get("kind") == "execution"`. -/
def isFill (row : JsonObject) : Bool := row.field "kind" = some (str "execution".toList)

/-- What stops a reader of the journals. -/
inductive JournalError where
  | damagedLines (skipped : Nat)
  | missingField (key : String)
  | notOneTransition
  deriving DecidableEq

section

-- `str(value)` of what is not a text
variable (shown : Json → Text)

/-- `str(row[key])`. -/
def shownField (row : JsonObject) (key : String) : Except JournalError Text :=
  match row.field key with
  | none => .error (.missingField key)
  | some (str t) => .ok t
  | some value => .ok (shown value)

/-- `sorted(equity, key=lambda row: str(row["trade_date"]))`. -/
def sortByDate (equity : List JsonObject) : Except JournalError (List JsonObject) :=
  (equity.mapM fun row => (shownField shown row "trade_date").map fun day => (day, row)).map
    fun dated => (dated.insertionSort fun a b => a.1 ≤ b.1).map Prod.snd

/-- The rows a verdict is read from. -/
structure Journals where
  equity : List JsonObject
  corrections : List JsonObject
  executions : List JsonObject

/-- `sorted(root.glob("executions_*.jsonl"))`. -/
def Directory.executionNames (dir : Directory) : List Text :=
  sortTexts (dir.keys.filter isExecutions)

/-- `_journals`, the rows as they were written. -/
def readJournals (dir : Directory) : Except JournalError Journals :=
  let equity := readJsonl (dir.file equityName)
  let corrections := readJsonl (dir.file correctionsName)
  let executions := dir.executionNames.map fun name => readJsonl (dir.file name)
  let skipped := equity.2 + corrections.2 + (executions.map Prod.snd).sum
  if skipped ≠ 0 then .error (.damagedLines skipped)
  else
    (sortByDate shown equity.1).map fun days =>
      { equity := days
        corrections := corrections.1
        executions := (executions.flatMap Prod.fst).filter isFill }

/-- `book_status`. -/
def bookStatus (dir : Directory) : Except JournalError Text :=
  let log := readJsonl (dir.file verdictLogName)
  if log.2 ≠ 0 ∨ 1 < log.1.length then .error .notOneTransition
  else
    match log.1 with
    | [] => .ok "observing".toList
    | row :: _ => shownField shown row "status"

end

/-- An append to a journal, and the bytes after which a crash tore it, if one did. -/
structure Write where
  name : Text
  payload : JsonObject
  torn : Option Nat := none

namespace Write

/-- The file a write leaves. -/
def onFile (w : Write) (file : Bytes) : Except StorageError Bytes :=
  match w.torn with
  | none => appendJsonlOnce file w.payload
  | some n => tornAppend w.payload file n

def apply (dir : Directory) (w : Write) : Except StorageError Directory :=
  (w.onFile (dir.file w.name)).map fun file => dir.set w.name file

end Write

/-- The directory the writes leave, from none. -/
def writeBook (writes : List Write) : Except StorageError Directory :=
  writes.foldlM Write.apply Dict.empty

end BookJournals

end AutoTrade
