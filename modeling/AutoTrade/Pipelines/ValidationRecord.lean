import AutoTrade.Pipelines.Ledger

/-!
# The validation record

The validation years are tiled into steps; each `test` of the research session,
and each step the host completes after it, is one `test_step` record of the
ledger. The sessions here are one after another: a research session reads the
record when it begins, tests, and ends with its own record, a failed attempt or
a kill.
-/

namespace AutoTrade

open Json JsonLines

/-- The validation years as consecutive steps. -/
structure ValidationSteps where
  /-- The day before the first step. -/
  opening : Text
  windows : List (Text × Text)

namespace ValidationSteps

def count (steps : ValidationSteps) : Nat := steps.windows.length

/-- The calendar bounds of the 1-based `step`. -/
def window (steps : ValidationSteps) (step : Nat) : Except LedgerError (Text × Text) :=
  match step with
  | 0 => .error .stepOutOfRange
  | tested + 1 =>
    match steps.windows[tested]? with
    | none => .error .stepOutOfRange
    | some bounds => .ok bounds

/-- The last day that can be read once so many steps are tested. -/
def horizonAfter (steps : ValidationSteps) (stepsTested : Nat) : Except LedgerError Text :=
  if stepsTested = 0 then .ok steps.opening else (·.2) <$> steps.window stepsTested

end ValidationSteps

inductive StepSource where
  | test
  | hostCompletion

def StepSource.key : StepSource → Text
  | .test => "test".toList
  | .hostCompletion => "host_completion".toList

/-- What a completed replay hands to a step's record. -/
structure StepReading where
  candidate : JsonObject
  replay : JsonObject
  entry : JsonObject
  registration : JsonObject

/-- `test_step_record`. -/
def testStepRecord (head : JsonObject) (steps : ValidationSteps) (step : Nat)
    (reading : StepReading) (source : StepSource) : Except LedgerError JsonObject := do
  let bounds ← steps.window step
  let horizon ← steps.horizonAfter step
  if reading.entry.field "start" = some (str bounds.1) ∧
      reading.entry.field "end" = some (str bounds.2) then
    .ok (("record_type".toList, str "test_step".toList) :: head ++
      [("step".toList, num (.ofNat step)), ("steps".toList, num (.ofNat steps.count)),
        ("window".toList, obj [("start".toList, str bounds.1), ("end".toList, str bounds.2)]),
        ("test_horizon".toList, str horizon), ("candidate".toList, obj reading.candidate),
        ("replay".toList, obj reading.replay), ("entry".toList, obj reading.entry),
        ("registration".toList, obj reading.registration), ("source".toList, str source.key)])
  else .error .wrongWindow

def testRows (rows : List JsonObject) : List JsonObject := rows.filter fun row => isType row "test_step"

/-- `int(record["step"])`. -/
def stepOf (row : JsonObject) : Option Nat :=
  match row.field "step" with
  | some (num n) => some n.toNat
  | _ => none

/-- `test_step_records`. -/
def testStepRecords (rows : List JsonObject) : Except LedgerError (List JsonObject) :=
  match (testRows rows).mapM fun row => (stepOf row).map fun step => (step, row) with
  | none => .error .stepUnread
  | some numbered =>
    let sorted := numbered.insertionSort fun a b => a.1 ≤ b.1
    if sorted.map Prod.fst = List.range' 1 sorted.length then .ok (sorted.map Prod.snd)
    else .error .notContiguous

namespace ResearchSession

inductive Phase where
  /-- It tests; `finished` once it tested the last step. -/
  | testing (finished : Bool)
  /-- It registers, and the host completes the record from step `next` on. -/
  | completing (next : Nat)
  /-- Its record is due, with a registration or without. -/
  | closing (registers : Bool)
  | closed

structure Session where
  runId : Token
  /-- The records of the steps tested so far. -/
  tests : List JsonObject
  phase : Phase := .testing false

/-- How the session's conversation ended. -/
inductive Outcome where
  | completed
  /-- Its budget ran out; `registrable` when a full-span candidate registers on its own. -/
  | deadline (registrable : Bool)
  /-- The host kept failing its replays, at its last attempt or before. -/
  | environmentBlocked (lastAttempt : Bool)

structure World where
  ledger : Text := []
  /-- The records appended so far. -/
  rows : List JsonObject := []
  live : Option Session := none

inductive Event where
  | begin (runId : Token)
  /-- A `test` call: what its replay read, unless it was refused or the replay failed. -/
  | test (reading : Option StepReading) (recordedAt : Token)
  | finish (outcome : Outcome)
  /-- The host reads the next step off its replay, unless this fails. -/
  | completeStep (reading : Option StepReading) (recordedAt : Token)
  /-- The session's own record. -/
  | record (record : JsonObject) (recordedAt : Token)
  /-- The session fails or is killed where it is. -/
  | stop
  /-- A failed attempt's record, a recovered one, or a forward record. -/
  | append (record : JsonObject) (recordedAt : Token)

/-- The head of a session's records. -/
def ledgerHead (experimentId runId : Token) : JsonObject :=
  [("experiment_id".toList, str experimentId.text), ("epoch_id".toList, str "research".toList),
    ("fold_id".toList, str "research".toList), ("run_id".toList, str runId.text),
    ("session_key".toList, str "research".toList)]

/-- What `run_research_session` checks before it begins: the steps tested before. -/
def testsBefore (ledger : Text) : Except LedgerError (List JsonObject) := do
  let records ← readVersionedJsonl ledger
  refuse true (.ok (records.any isRegisteredArtifactMutation)) .artifactMutated
  refuse true (researchOver records) .researchOver
  refuse true (.ok (researchRecords records ≠ [])) .sessionRecorded
  testStepRecords records

def World.write (w : World) (record : JsonObject) (recordedAt : Token) : Except LedgerError World :=
  (appendLedger w.ledger record recordedAt.text).map fun ledger =>
    { w with ledger, rows := w.rows ++ [stamped record recordedAt.text] }

/-- The ledger's steps, as the end of a session reads them. -/
def World.tested (w : World) : Except LedgerError Nat := do
  return (← testStepRecords (← readVersionedJsonl w.ledger)).length

variable (experimentId : Token) (steps : ValidationSteps)

/-- `TestTool.invoke`; a call that is refused changes nothing. -/
def World.test (w : World) (session : Session) (reading : StepReading) (recordedAt : Token) :
    Except LedgerError World := do
  let step := session.tests.length + 1
  if steps.count < step then throw .stepOutOfRange
  let record ← testStepRecord (ledgerHead experimentId session.runId) steps step reading .test
  let written ← w.write record recordedAt
  return { written with
    live := some { session with
      tests := session.tests ++ [record], phase := .testing (step == steps.count) } }

/-- One turn of the loop of `complete_record`. -/
def World.completeStep (w : World) (session : Session) (next : Nat) (reading : StepReading)
    (recordedAt : Token) : Except LedgerError World := do
  let record ← testStepRecord (ledgerHead experimentId session.runId) steps next reading
    .hostCompletion
  let written ← w.write record recordedAt
  return { written with live := some { session with phase := .completing (next + 1) } }

/-- What the end of the conversation leaves to do; none when the attempt fails. -/
def World.finish (w : World) (finished : Bool) : Outcome → Except LedgerError (Option Phase)
  | .completed => do
    let _ ← w.tested
    return if finished then some (.closing true) else none
  | .deadline registrable => do
    let done ← w.tested
    return if done = 0 ∧ registrable = false then some (.closing false)
      else some (.completing (done + 1))
  | .environmentBlocked lastAttempt => do
    let _ ← w.tested
    return if lastAttempt then some (.closing false) else none

/-- Whether the session's record is due, and with a registration. -/
def Phase.registers : Phase → Option Bool
  | .closing registers => some registers
  | .completing next => if steps.count < next then some true else none
  | _ => none

/-- A step of the session in flight; none when it is refused. -/
def World.sessionStep (w : World) (session : Session) : Event → Option World
  | .test (some reading) recordedAt =>
    match session.phase with
    | .testing false => (w.test experimentId steps session reading recordedAt).toOption
    | _ => none
  | .finish outcome =>
    match session.phase with
    | .testing finished =>
      (w.finish finished outcome).toOption.map fun phase =>
        { w with live := phase.map fun phase => { session with phase } }
    | _ => none
  | .completeStep (some reading) recordedAt =>
    match session.phase with
    | .completing next => (w.completeStep experimentId steps session next reading recordedAt).toOption
    | _ => none
  | .record record recordedAt =>
    if isType record "research_session" ∧
        session.phase.registers steps = some (record.holds "registered") then
      (w.write record recordedAt).toOption.map fun written =>
        { written with live := some { session with phase := .closed } }
    else none
  | .stop => some { w with live := none }
  | _ => none

def World.step (w : World) : Event → World
  | .begin runId =>
    match w.live, testsBefore w.ledger with
    | none, .ok tests => { w with live := some { runId, tests } }
    | _, _ => w
  | .append record recordedAt =>
    if isType record "attempt_failed" ∨ isType record "forward" then
      ((w.write record recordedAt).toOption).getD w
    else w
  | event => (w.live.bind fun session => w.sessionStep experimentId steps session event).getD w

def World.run (w : World) (events : List Event) : World :=
  events.foldl (World.step experimentId steps) w

end ResearchSession

end AutoTrade
