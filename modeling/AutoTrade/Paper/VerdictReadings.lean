import AutoTrade.Paper.BookJournals

/-!
# The readings of a verdict

`autotrade/paper/verdict.py`: a reading measures a book's settled days, looks for the first
terminal event past what was checked before, and is recorded: the transition in
`verdict.jsonl`, then the reading in `verdict.json`. What is measured (the account, its
random baseline and the bootstrap bounds) is given to each reading, in numbers of any kind.
-/

namespace AutoTrade

namespace PaperVerdict

open Json JsonLines Storage BookJournals

/-- The rules a book pinned when it was made. -/
structure VerdictRules (F : Type) where
  checkpointDays : Nat
  positive : 0 < checkpointDays
  maxDrawdown : F
  activeMaxDrawdown : F

/-- What a reading measures: the drawdowns by the index of the day, the annualised mean and
the bounds (confirm, kill) of the first days, the bounds none before one bootstrap block. -/
structure Evidence (F : Type) where
  accountDrawdown : Nat → F
  activeDrawdown : Nat → F
  mean : Nat → F
  bounds : Nat → Option (F × F)
  shown : F → JsonNumber

/-- What stops a reading. -/
inductive ReadingError where
  | journal (e : JournalError)
  | storage (e : StorageError)
  | daysNotInOrder
  | notMeasured
  | noBounds
  deriving DecidableEq

/-- A terminal event. -/
inductive Reason where
  | accountDrawdown
  | activeDrawdown
  | killBound
  | confirmBound

namespace Reason

def status : Reason → Text
  | accountDrawdown | activeDrawdown | killBound => "killed".toList
  | confirmBound => "confirmed".toList

def text : Reason → Text
  | accountDrawdown => "account_drawdown_exceeded".toList
  | activeDrawdown => "active_drawdown_exceeded".toList
  | killBound => "kill_upper_bound_below_zero".toList
  | confirmBound => "confirm_lower_bound_above_zero".toList

end Reason

/-- `_plain`. -/
def Evidence.plain {F : Type} (e : Evidence F) (days : Nat) : JsonObject :=
  let bound (side : F × F → F) := ((e.bounds days).map fun b => num (e.shown (side b))).getD null
  JsonObject.ofFields [("mean", num (e.shown (e.mean days))),
    ("confirm_lower_bound", bound Prod.fst), ("kill_upper_bound", bound Prod.snd)]

/-- The row a transition is recorded as. -/
def transitionRow {F : Type} (e : Evidence F) (recordedAt : Text) (reason : Reason) (index : Nat)
    (day : Text) : JsonObject :=
  JsonObject.ofFields [("event_id", str "terminal".toList), ("status", str reason.status),
    ("reason", str reason.text), ("date", str day), ("days", num (.ofNat (index + 1))),
    ("recorded_at", str recordedAt), ("plain", obj (e.plain (index + 1))),
    ("account_drawdown", num (e.shown (e.accountDrawdown index))),
    ("active_drawdown", num (e.shown (e.activeDrawdown index)))]

section

variable {F : Type} [Zero F] [LT F] [DecidableLT F]

/-- A day's statistical check is reached: no drawdown ends the book on it, and it is a
checkpoint past `checked`. -/
def tests (rules : VerdictRules F) (e : Evidence F) (checked index : Nat) : Bool :=
  ¬ rules.maxDrawdown < e.accountDrawdown index ∧
    ¬ rules.activeMaxDrawdown < e.activeDrawdown index ∧
    (index + 1) % rules.checkpointDays = 0 ∧ checked < index + 1

/-- The terminal event of one day. -/
def dayEvent (rules : VerdictRules F) (e : Evidence F) (checked index : Nat) :
    Except ReadingError (Option Reason) :=
  if rules.maxDrawdown < e.accountDrawdown index then .ok (some .accountDrawdown)
  else if rules.activeMaxDrawdown < e.activeDrawdown index then .ok (some .activeDrawdown)
  else if (index + 1) % rules.checkpointDays = 0 ∧ checked < index + 1 then
    match e.bounds (index + 1) with
    | none => .error .noBounds
    | some (lower, upper) =>
      .ok (if upper < 0 then some .killBound else if 0 < lower then some .confirmBound else none)
  else .ok none

/-- `_first_transition` over the days from `index` on, with the checkpoints it tests. -/
def firstTransition (rules : VerdictRules F) (e : Evidence F) (recordedAt : Text)
    (checked : Nat) : Nat → List Text → Except ReadingError (Option JsonObject × List Nat)
  | _, [] => .ok (none, [])
  | index, day :: days =>
    let tested := if tests rules e checked index then [index + 1] else []
    match dayEvent rules e checked index with
    | .error stop => .error stop
    | .ok (some reason) => .ok (some (transitionRow e recordedAt reason index day), tested)
    | .ok none =>
      (firstTransition rules e recordedAt checked (index + 1) days).map fun later =>
        (later.1, tested ++ later.2)

end

/-- A reading, and beside it the checkpoints it tested. Its measured numbers are left out. -/
structure Reading where
  firstDay : Option Text
  lastDay : Option Text
  days : Nat
  status : Json
  transition : Option JsonObject
  checkedThrough : Nat
  nextCheckpoint : Nat
  tested : List Nat

/-- What a crash leaves undone: part of the transition's append, or the reading's record. -/
inductive Crash where
  | inAppend (bytes : Nat)
  | beforeRecord

/-- One reading of a book: when, what it measures, if it can, and the crash that ends it. -/
structure Visit (F : Type) where
  recordedAt : Text
  evidence : Option (Evidence F)
  crash : Option Crash := none

/-- The book's journals and `verdict.json`. -/
structure Files where
  dir : Directory
  record : Option Reading

/-- `int((previous or {}).get("checked_through") or 0)`. -/
def Files.checkedThrough (files : Files) : Nat := (files.record.map Reading.checkedThrough).getD 0

section

variable (shown : Json → Text)

/-- `transition["status"] if transition else "observing"`. -/
def statusOf : Option JsonObject → Except ReadingError Json
  | none => .ok (str "observing".toList)
  | some row =>
    match row.field "status" with
    | none => .error (.journal (.missingField "status"))
    | some status => .ok status

variable {F : Type} [Zero F] [LT F] [DecidableLT F] (rules : VerdictRules F)

/-- The stored transition, or the first of the days. -/
def transitionOn (files : Files) (visit : Visit F) (stored : Text) (e : Evidence F)
    (dates : List Text) : Except ReadingError (Option JsonObject × List Nat) :=
  if stored ≠ "observing".toList then
    .ok ((readJsonl (files.dir.file verdictLogName)).1.head?, [])
  else firstTransition rules e visit.recordedAt files.checkedThrough 0 dates

/-- `evidence_reading`. -/
def evidenceReading (files : Files) (equity : List JsonObject) (visit : Visit F) :
    Except ReadingError Reading := do
  let stored ← (bookStatus shown files.dir).mapError .journal
  let dates ← (equity.mapM fun row => shownField shown row "trade_date").mapError .journal
  if dates = [] then
    return { firstDay := none, lastDay := none, days := 0, status := str stored
             transition := if stored ≠ "observing".toList then
               (readJsonl (files.dir.file verdictLogName)).1.head? else none
             checkedThrough := files.checkedThrough, nextCheckpoint := rules.checkpointDays
             tested := [] }
  else if ¬ dates.Nodup ∨ dates ≠ sortTexts dates then throw .daysNotInOrder
  else
    match visit.evidence with
    | none => throw .notMeasured
    | some e =>
      let found ← transitionOn rules files visit stored e dates
      let status ← statusOf found.1
      let lastCheckpoint := dates.length / rules.checkpointDays * rules.checkpointDays
      return { firstDay := dates.head?, lastDay := dates.getLast?, days := dates.length, status
               transition := found.1
               checkedThrough := max files.checkedThrough lastCheckpoint
               nextCheckpoint := lastCheckpoint + rules.checkpointDays
               tested := found.2 }

/-- `paper_reading`. -/
def paperReading (files : Files) (visit : Visit F) : Except ReadingError Reading := do
  let journals ← (readJournals shown files.dir).mapError .journal
  evidenceReading shown rules files journals.equity visit

/-- The append of a reading's transition, where the book is still observing. -/
def logTransition (dir : Directory) (transition : Option JsonObject) (torn : Option Nat) :
    Except ReadingError Directory :=
  match transition with
  | none => .ok dir
  | some row =>
    if bookStatus shown dir = .ok "observing".toList then
      (Write.apply dir ⟨verdictLogName, row, torn⟩).mapError .storage
    else .ok dir

/-- `record_verdict_locked`: the reading, and the files it leaves. -/
def recordVerdictLocked (files : Files) (visit : Visit F) :
    Except ReadingError (Reading × Files) := do
  let reading ← paperReading shown rules files visit
  match visit.crash with
  | some (.inAppend bytes) =>
    let dir ← logTransition shown files.dir reading.transition (some bytes)
    return (reading, { files with dir })
  | some .beforeRecord =>
    let dir ← logTransition shown files.dir reading.transition none
    return (reading, { files with dir })
  | none =>
    let dir ← logTransition shown files.dir reading.transition none
    return (reading, { dir, record := some reading })

/-- What happens to a book: an append to another of its journals, or a reading. -/
inductive Event (F : Type) where
  | append (w : Write) (other : w.name ≠ verdictLogName)
  | reading (visit : Visit F)

/-- A book's files, and the readings that left something in them. -/
structure Course where
  files : Files
  history : List Reading

def Course.start : Course := ⟨⟨Dict.empty, none⟩, []⟩

/-- A reading that stops leaves nothing, and so may one that a crash ends. -/
def Course.step (c : Course) : Event F → Course
  | .append w _ =>
    match w.apply c.files.dir with
    | .error _ => c
    | .ok dir => { c with files.dir := dir }
  | .reading visit =>
    match recordVerdictLocked shown rules c.files visit with
    | .error _ => c
    | .ok (reading, files) =>
      { files
        history :=
          if visit.crash.isNone ∨ files.dir.file verdictLogName ≠ c.files.dir.file verdictLogName
          then c.history ++ [reading] else c.history }

def Course.run (c : Course) (events : List (Event F)) : Course :=
  events.foldl (Course.step shown rules) c

end

end PaperVerdict

end AutoTrade
