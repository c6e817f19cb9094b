import Mathlib.Data.List.Dedup
import AutoTrade.Paper.Engine

/-!
# The fills a verdict reads

`autotrade/paper/verdict.py`, `_journals` and `_corrected`: the executions of a
book's journals, the fills of every corrected key replaced by the outcome the
book's ledger now holds. The days of `equity_daily.jsonl` are not modelled.
-/

namespace AutoTrade

/-- What stops `_corrected`. -/
inductive VerdictError where
  | noLedger
  | notInLedger (session : Nat) (key : OrderKey)
  | keyDoesNotParse (key : OrderKey)
  | missingPrice (session : Nat) (key : OrderKey)
  deriving DecidableEq

/-- The sessions of the state's fill ledger. -/
def PaperState.ledger (state : PaperState) : Dict Nat Ledger :=
  (state.realFills.map Mode.sessions).getD Dict.empty

/-- A row of `executions_<session>.jsonl`. The source reads a row without its
file; the session stands here beside the row for statements to speak of. -/
structure JournalRow where
  session : Nat
  execution : Execution
  deriving DecidableEq

/-- The key an execution was ordered under. -/
def Execution.orderKey (e : Execution) : OrderKey := ⟨e.executeAt.minute, e.action, e.symbol⟩

namespace JournalRow

/-- `identity`: the day and key a row's own `execute_at` names. -/
def identity (row : JournalRow) : Nat × OrderKey :=
  (row.execution.executeAt.day, row.execution.orderKey)

/-- The session that settled a row, with its key. -/
def filed (row : JournalRow) : Nat × OrderKey := (row.session, row.execution.orderKey)

end JournalRow

/-- The rows of the execution journals, as they were written. -/
def journalRows (journal : List Emission) : List JournalRow :=
  journal.filterMap fun
    | .execution day row => some ⟨day, row.execution⟩
    | _ => none

/-- The rows of the execution journals, the files read in the order of their names. -/
def executionRows (journal : List Emission) : List JournalRow :=
  (journalRows journal).insertionSort fun row row' => row.session ≤ row'.session

/-- The `(session, key)` a correction row corrects. -/
def CorrectionRow.corrected (row : CorrectionRow) : Nat × OrderKey := (row.corrects, row.key)

/-- The set of corrected keys, in the order it is gone through, which Python leaves open. -/
structure CorrectedKeys (corrections : List CorrectionRow) where
  keys : List (Nat × OrderKey)
  nodup : keys.Nodup
  mem_iff : ∀ k, k ∈ keys ↔ k ∈ corrections.map CorrectionRow.corrected

/-- The corrected keys in the order of their first rows. -/
def CorrectedKeys.ofRows (corrections : List CorrectionRow) : CorrectedKeys corrections where
  keys := (corrections.map CorrectionRow.corrected).dedup
  nodup := List.nodup_dedup _
  mem_iff _ := List.mem_dedup

/-- The one fill an outcome comes to, at its session's own time. What the source's
record leaves out stands at its default. -/
def heldFill (session : Nat) (key : OrderKey) (h : key.clock < 24 * 60) (quantity : Int) (p : ℚ) :
    JournalRow :=
  { session
    execution :=
      { symbol := key.symbol, action := key.action, quantity
        executeAt := .atMinute session key.clock h, matchedAt := .atMinute session key.clock h
        status := .filled, price := some p } }

/-- `held[(session, key)]`. -/
def heldRows (sessions : Dict Nat Ledger) (k : Nat × OrderKey) :
    Except VerdictError (List JournalRow) :=
  match (sessions.get? k.1).bind fun ledger => ledger.get? k.2 with
  | none => .error (.notInLedger k.1 k.2)
  | some entry =>
    if h : k.2.parses = true ∧ k.2.clock < 24 * 60 then
      if entry.real.quantity = 0 then .ok []
      else
        match entry.real.price with
        | none => .error (.missingPrice k.1 k.2)
        | some p => .ok [heldFill k.1 k.2 h.2 entry.real.quantity p]
    else .error (.keyDoesNotParse k.2)

/-- The first loop of `_corrected`. -/
def holdRows (sessions : Dict Nat Ledger) (corrected : List (Nat × OrderKey)) :
    Except VerdictError (Dict (Nat × OrderKey) (List JournalRow)) :=
  corrected.foldlM (fun held k => (heldRows sessions k).map (held.set k)) Dict.empty

/-- The second loop of `_corrected`: the first row of a held key gives way to
what is held, later rows of a corrected key go, and what no row gave way to
comes last. -/
def replaceRows (corrected : List (Nat × OrderKey)) :
    Dict (Nat × OrderKey) (List JournalRow) → List JournalRow → List JournalRow
  | held, [] => held.values.flatten
  | held, row :: rows =>
    match held.get? row.identity with
    | some fills => fills ++ replaceRows corrected (held.erase row.identity) rows
    | none =>
      if row.identity ∈ corrected then replaceRows corrected held rows
      else row :: replaceRows corrected held rows

/-- `_corrected`. -/
def correctedRows (rows : List JournalRow) (corrected : List (Nat × OrderKey))
    (sessions : Dict Nat Ledger) : Except VerdictError (List JournalRow) :=
  (holdRows sessions corrected).map fun held => replaceRows corrected held rows

/-- The executions `_journals` returns. -/
def verdictRows (journal : List Emission) (realFills : Option Mode)
    (corrected : CorrectedKeys (correctionsOf journal)) : Except VerdictError (List JournalRow) :=
  if correctionsOf journal = [] then .ok (executionRows journal)
  else
    match realFills with
    | none => .error .noLedger
    | some mode => correctedRows (executionRows journal) corrected.keys mode.sessions

end AutoTrade
