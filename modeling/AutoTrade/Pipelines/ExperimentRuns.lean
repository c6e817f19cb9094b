import AutoTrade.Pipelines.Ledger

/-!
# The runs of an experiment

Research sessions and the forward replay, each between its marker and its ledger
record. A run appends to the ledger under its run id and drops its marker once a
record of its own is durable; a run that is killed leaves the marker, and the
next start of the worker turns it into a failed attempt.
-/

namespace AutoTrade.ExperimentRuns

open Json JsonLines

inductive Stage where
  | research
  | forward
  deriving DecidableEq

def Stage.key : Stage → Text
  | .research => "research".toList
  | .forward => "forward".toList

structure Run where
  runId : Token
  stage : Stage

/-- The experiment's id and the name of its directory. -/
structure Site where
  experimentId : Token
  directory : Token

/-- The `attempt` a run's marker and its failed attempt are made of. -/
def attempt (site : Site) (run : Run) : JsonObject :=
  [("experiment_id".toList, str site.experimentId.text), ("epoch_id".toList, str run.stage.key),
    ("fold_id".toList, str run.stage.key), ("run_id".toList, str run.runId.text),
    ("session_key".toList, str run.stage.key), ("phase".toList, str run.stage.key)]

structure LiveRun where
  run : Run
  /-- It has appended a test step. -/
  stepped : Bool := false
  wroteLedgerRecord : Bool := false

/-- An experiment's directory, and the runs that began in it. -/
structure Experiment where
  ledger : Text := []
  markers : RunMarkers := .empty
  begun : List Run := []
  live : Option LiveRun := none

inductive Event where
  /-- A run writes its marker. -/
  | begin (run : Run) (startedAt : Token)
  /-- The live run appends a record under its run id. -/
  | append (record : JsonObject) (recordedAt : Token)
  /-- The live run, its record durable, drops its marker. -/
  | finish
  /-- The live run stops where it is. -/
  | kill
  /-- A marker file can no longer be read: its rename is not fsynced. -/
  | tear (stem : Text) (reason : Token)
  /-- The worker starts and recovers the markers, or is killed after so many writes. -/
  | restart (recordedAt : Token) (killedAfter : Option Nat)

/-- The run ended with this record. -/
def isTerminal (record : JsonObject) : Bool :=
  isType record "research_session" || isType record "forward" || isType record "attempt_failed"

def Experiment.begin (site : Site) (x : Experiment) (run : Run) (startedAt : Token) : Experiment :=
  if x.live.isSome ∨ run.runId.text ∈ x.begun.map (fun other => other.runId.text) then x
  else match beginRun x.markers (attempt site run) run.runId.text startedAt.text with
    | .error _ => x
    | .ok markers => { x with markers, begun := x.begun ++ [run], live := some { run } }

def Experiment.append (x : Experiment) (record : JsonObject) (recordedAt : Token) : Experiment :=
  match x.live with
  | none => x
  | some live =>
    if live.wroteLedgerRecord ∨ record.field "run_id" ≠ some (str live.run.runId.text) then x
    else match appendLedger x.ledger record recordedAt.text with
      | .error _ => x
      | .ok ledger =>
        { x with
          ledger,
          live := some { live with
            stepped := live.stepped || isType record "test_step",
            wroteLedgerRecord := isTerminal record } }

def Experiment.finish (x : Experiment) : Experiment :=
  match x.live with
  | none => x
  | some live =>
    if live.wroteLedgerRecord then
      { x with markers := finishRun x.markers live.run.runId.text, live := none }
    else x

def Experiment.tear (x : Experiment) (stem : Text) (reason : Token) : Experiment :=
  if (x.markers.get? stem).isSome then
    { x with markers := x.markers.set stem (.error reason.text) }
  else x

/-- The writes of a recovery, up to one the ledger refuses. -/
def Experiment.recover (recordedAt : Token) (x : Experiment) : List RecoveryWrite → Experiment
  | [] => x
  | .unlink stem :: rest =>
    { x with markers := finishRun x.markers stem }.recover recordedAt rest
  | .record record :: rest =>
    match appendLedger x.ledger record recordedAt.text with
    | .error _ => x
    | .ok ledger => { x with ledger }.recover recordedAt rest

def Experiment.restart (site : Site) (x : Experiment) (recordedAt : Token)
    (killedAfter : Option Nat) : Experiment :=
  if x.live.isSome then x
  else match readVersionedJsonl x.ledger with
    | .error _ => x
    | .ok rows =>
      let writes := recoveryWrites site.directory.text rows x.markers
      x.recover recordedAt (match killedAfter with
        | none => writes
        | some n => writes.take n)

def Experiment.step (site : Site) (x : Experiment) : Event → Experiment
  | .begin run startedAt => x.begin site run startedAt
  | .append record recordedAt => x.append record recordedAt
  | .finish => x.finish
  | .kill => { x with live := none }
  | .tear stem reason => x.tear stem reason
  | .restart recordedAt killedAfter => x.restart site recordedAt killedAfter

def Experiment.run (site : Site) (x : Experiment) (events : List Event) : Experiment :=
  events.foldl (Experiment.step site) x

/-- The terminal records under a run id. -/
def terminalRows (rows : List JsonObject) (runId : Text) : List JsonObject :=
  rows.filter fun row => row.textField "run_id" = some runId && isTerminal row

/-- The attempts `resume_state` resumes from. -/
def failedResearchAttempts (rows : List JsonObject) : List JsonObject :=
  rows.filter fun row =>
    isType row "attempt_failed" && row.field "phase" = some (str Stage.research.key)

end AutoTrade.ExperimentRuns
