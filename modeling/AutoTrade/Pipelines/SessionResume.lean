import AutoTrade.Common.Amount
import AutoTrade.Environment.Trace
import AutoTrade.Pipelines.ExperimentRuns

/-!
# What a resumed session knows of its spend

The budgeted events of an attempt carry the session's cumulative spend. An
attempt that resumes reads it back from the traces of the failed attempts, in
the ledger's order, and refuses a trace that stopped at its marker.
-/

namespace AutoTrade

open Json JsonLines

/-- What is used of Python's floats and of its `str`. -/
structure Builtins where
  /-- `str(value)` of what is not a string. -/
  render : Json → Text
  /-- `round(value, digits)`. -/
  round : Nat → Amount → Amount
  /-- `int(value)` of a float. -/
  truncate : JsonNumber → Nat

inductive ResumeError where
  /-- The attempt's trace reached its size cap; the spend it records is not what
      the attempt actually used. -/
  | sizeCap (runId : Text)
  /-- `budget_used.{key}` must be a non-negative number. -/
  | badAmount (key : String)
  deriving DecidableEq

structure BudgetUsed where
  inferenceSeconds : Amount := zeroAmount
  llmCalls : Nat := 0
  mainCalls : Nat := 0
  subagentCalls : Nat := 0
  compactCalls : Nat := 0
  testReplays : Nat := 0
  nullControls : Nat := 0
  apiSpendUsd : Amount := zeroAmount

namespace BudgetUsed

def toRecord (py : Builtins) (used : BudgetUsed) : JsonObject :=
  [("inference_seconds".toList, num (py.round 1 used.inferenceSeconds).number),
    ("llm_calls".toList, num (.ofNat used.llmCalls)),
    ("main_calls".toList, num (.ofNat used.mainCalls)),
    ("subagent_calls".toList, num (.ofNat used.subagentCalls)),
    ("compact_calls".toList, num (.ofNat used.compactCalls)),
    ("test_replays".toList, num (.ofNat used.testReplays)),
    ("null_controls".toList, num (.ofNat used.nullControls)),
    ("api_spend_usd".toList, num (py.round 4 used.apiSpendUsd).number)]

/-- `number(key, float)`. -/
def amountAt (record : JsonObject) (key : String) : Except ResumeError Amount :=
  match (record.field key).getD (num zeroAmount.number) with
  | num n => if sign : n.isNegative = false then .ok ⟨n, sign⟩ else .error (.badAmount key)
  | _ => .error (.badAmount key)

/-- `number(key, int)`. -/
def countAt (py : Builtins) (record : JsonObject) (key : String) : Except ResumeError Nat := do
  let amount ← amountAt record key
  return if amount.number.isInt then amount.number.toNat else py.truncate amount.number

def fromRecord (py : Builtins) (record : JsonObject) : Except ResumeError BudgetUsed := do
  let inferenceSeconds ← amountAt record "inference_seconds"
  let llmCalls ← countAt py record "llm_calls"
  let mainCalls ← countAt py record "main_calls"
  let subagentCalls ← countAt py record "subagent_calls"
  let compactCalls ← countAt py record "compact_calls"
  let testReplays ← countAt py record "test_replays"
  let nullControls ← countAt py record "null_controls"
  let apiSpendUsd ← amountAt record "api_spend_usd"
  return { inferenceSeconds, llmCalls, mainCalls, subagentCalls, compactCalls, testReplays,
           nullControls, apiSpendUsd }

end BudgetUsed

namespace SessionResume

open ExperimentRuns (failedResearchAttempts)

/-- `_trace_events`: a torn line is not evidence of anything. -/
def traceEvents (file : Text) : List JsonObject :=
  (file.splitOnP isTextBreak).filterMap fun line => loadObject (stripText line)

/-- The trace files by run id. -/
abbrev TraceFiles := Dict Text Text

def eventsOf (traces : TraceFiles) (runId : Text) : List JsonObject :=
  match traces.get? runId with
  | none => []
  | some file => traceEvents file

def isEvent (record : JsonObject) (event : TraceEvent) : Bool :=
  record.field "event_type" = some (str event.name)

/-- `str(value or default)`. -/
def shownOr (render : Json → Text) (value : Option Json) (default : Text) : Text :=
  if (value.map truthy).getD false then Trace.shownText render value else default

/-- What the events read so far say. -/
structure Reading where
  budget : BudgetUsed := {}
  summary : Option Text := none
  interruptedAt : Text := []
  runRef : Text := []
  transcripts : List Text := []

/-- The summary of a compaction that worked. -/
def compactionSummary (event : JsonObject) : Option Text :=
  match event.textField "summary" with
  | none => none
  | some summary =>
    if isEvent event .contextCompaction && event.field "status" = some (str "ok".toList) &&
      stripText summary ≠ [] then some summary else none

def readEvent (py : Builtins) (runId : Text) (reading : Reading) (event : JsonObject) :
    Except ResumeError Reading :=
  if isEvent event .traceLimitReached then .error (.sizeCap runId)
  else do
    let budget ← match event.field "budget_used" with
      | some (obj used) => BudgetUsed.fromRecord py used
      | _ => pure reading.budget
    return { reading with
      budget
      summary := (compactionSummary event).or reading.summary
      interruptedAt := shownOr py.render (event.field "ts") reading.interruptedAt
      runRef := shownOr py.render (event.field "run_id") reading.runRef }

def readAttempt (py : Builtins) (traces : TraceFiles) (reading : Reading) (attempt : JsonObject) :
    Except ResumeError Reading := do
  let runId := shownOr py.render (attempt.field "run_id") []
  let read ← (eventsOf traces runId).foldlM (readEvent py runId) { reading with runRef := [] }
  return if read.runRef = [] then read
    else { read with transcripts := read.transcripts ++ [read.runRef ++ ".txt".toList] }

structure Resume where
  attempt : Nat
  interruptedAt : Text
  error : Text
  compactionSummary : Option Text
  budgetUsed : BudgetUsed
  transcripts : List Text

/-- `resume_state`; `redact` is `redact_host_paths`. -/
def resumeState (py : Builtins) (redact : Text → Text) (traces : TraceFiles)
    (rows : List JsonObject) : Except ResumeError (Option Resume) :=
  let attempts := failedResearchAttempts rows
  match attempts.getLast? with
  | none => .ok none
  | some last => do
    let reading ← attempts.foldlM (readAttempt py traces) {}
    return some {
      attempt := attempts.length + 1
      interruptedAt := if reading.interruptedAt = [] then
        shownOr py.render (last.field "recorded_at") [] else reading.interruptedAt
      error := redact (shownOr py.render (last.field "error") [])
      compactionSummary := reading.summary
      budgetUsed := reading.budget
      transcripts := reading.transcripts }

/-- The counters the next attempt starts from. -/
def seededBudget (py : Builtins) (redact : Text → Text) (traces : TraceFiles)
    (rows : List JsonObject) : Except ResumeError BudgetUsed := do
  let resume ← resumeState py redact traces rows
  return (resume.map Resume.budgetUsed).getD {}

/-- `BUDGET_EVENTS`. -/
def budgetEvents : List TraceEvent := [.llmCall, .toolCall, .sessionEnd, .sessionError]

/-- A payload as the session makes it: the sink alone adds a spend. -/
structure Payload where
  fields : JsonObject
  unspent : fields.field "budget_used" = none

/-- An event of the session: the marker is the writer's own. -/
structure SessionEvent where
  event : TraceEvent
  own : event ≠ .traceLimitReached

inductive Emission where
  /-- Through the session's event sink, with its counters at the time. -/
  | session (event : SessionEvent) (payload : Payload) (used : BudgetUsed)
  /-- A stage, by a writer the progress hook makes for it. -/
  | stage (payload : Payload)

/-- The block the sink attaches. -/
def Emission.block (py : Builtins) : Emission → Option JsonObject
  | session event _ used =>
    if event.event ∈ budgetEvents then some (used.toRecord py) else none
  | stage _ => none

def Emission.event : Emission → TraceEvent
  | session event _ _ => event.event
  | stage _ => .environmentStage

def Emission.fields : Emission → JsonObject
  | session _ payload _ => payload.fields
  | stage payload => payload.fields

/-- `_agent_event_sink`. -/
def Emission.payload (py : Builtins) (emission : Emission) : JsonObject :=
  match emission.block py with
  | some block => emission.fields.setField "budget_used" (obj block)
  | none => emission.fields

/-- What `_open_trace` writes into every record. -/
structure TraceIds where
  experimentId : Text
  sessionRef : Text
  runRef : Text

def TraceIds.fields (ids : TraceIds) : List (String × Text) :=
  [("experiment_id", ids.experimentId), ("epoch_id", "research".toList),
    ("session_ref", ids.sessionRef), ("run_id", ids.runRef), ("session_kind", "research".toList)]

structure LiveAttempt where
  runId : Text
  ids : TraceIds
  /-- The session's writer has stopped. -/
  full : Bool := false

structure Session where
  rows : List JsonObject := []
  traces : TraceFiles := .empty
  /-- The run ids of the attempts so far, in order. -/
  runIds : List Text := []
  live : Option LiveAttempt := none
  /-- The block of the last budgeted event that was emitted. -/
  lastBlock : JsonObject := []
  /-- The runs an event of which was dropped for the cap. -/
  dropped : List Text := []

inductive Event where
  | begin (runId : Token) (ids : TraceIds)
  | emit (emission : Emission) (stamp markerStamp : TraceStamp)
  /-- The live attempt dies, so many characters into a line when it is writing
      one, and the ledger holds its failure. -/
  | fail (record : JsonObject) (torn : Option (JsonObject × Nat))
  /-- Any other record of the ledger. -/
  | append (record : JsonObject)

def Session.begin (s : Session) (runId : Token) (ids : TraceIds) : Session :=
  if s.live.isSome ∨ runId.text ∈ s.runIds then s
  else { s with runIds := s.runIds ++ [runId.text], live := some { runId := runId.text, ids } }

/-- The trace of the live attempt, under the writer that emits. -/
def LiveAttempt.trace (live : LiveAttempt) (traces : TraceFiles) : Emission → Trace
  | .session _ _ _ => { file := (traces.get? live.runId).getD [], full := live.full }
  | .stage _ => { file := (traces.get? live.runId).getD [] }

/-- The record an emission puts into the trace, where there is room for it. -/
def LiveAttempt.record (limits : TraceLimits) (py : Builtins) (live : LiveAttempt)
    (emission : Emission) (stamp : TraceStamp) : Except TraceError JsonObject :=
  Trace.sizedRecord limits py.render live.ids.fields emission.event (emission.payload py) stamp

def Session.emit (limits : TraceLimits) (py : Builtins) (s : Session) (emission : Emission)
    (stamp markerStamp : TraceStamp) : Session :=
  match s.live with
  | none => s
  | some live =>
    let trace := live.trace s.traces emission
    match live.record limits py emission stamp with
    | .error _ => s
    | .ok record =>
      let marker := Trace.limitMarker limits live.ids.fields markerStamp
      let written := trace.write limits record marker
      { s with
        traces := s.traces.set live.runId written.file
        live := some (match emission with
          | .session _ _ _ => { live with full := written.full }
          | .stage _ => live)
        lastBlock := (emission.block py).getD s.lastBlock
        dropped := if trace.full || !Trace.hasRoom limits trace.file record then
          live.runId :: s.dropped else s.dropped }

/-- The record is the failure of a research attempt. -/
def isFailedAttempt (record : JsonObject) : Bool := failedResearchAttempts [record] ≠ []

/-- What of a line reaches the file, short of the whole of it. -/
def tornLine (torn : JsonObject) (written : Nat) : Text :=
  let text := dumps (obj (sortFields torn))
  text.take (min written (text.length - 1))

/-- The traces, a line of one run cut short. -/
def cutShort (traces : TraceFiles) (runId : Text) : Option (JsonObject × Nat) → TraceFiles
  | none => traces
  | some (torn, written) =>
    traces.set runId ((traces.get? runId).getD [] ++ tornLine torn written)

def Session.fail (s : Session) (record : JsonObject) (torn : Option (JsonObject × Nat)) :
    Session :=
  match s.live with
  | none => s
  | some live =>
    if isFailedAttempt record && record.field "run_id" = some (str live.runId) then
      { s with
        rows := s.rows ++ [record]
        traces := cutShort s.traces live.runId torn
        live := none }
    else s

def Session.append (s : Session) (record : JsonObject) : Session :=
  if isFailedAttempt record then s else { s with rows := s.rows ++ [record] }

def Session.step (limits : TraceLimits) (py : Builtins) (s : Session) : Event → Session
  | .begin runId ids => s.begin runId ids
  | .emit emission stamp markerStamp => s.emit limits py emission stamp markerStamp
  | .fail record torn => s.fail record torn
  | .append record => s.append record

def Session.run (limits : TraceLimits) (py : Builtins) (s : Session) (events : List Event) :
    Session :=
  events.foldl (Session.step limits py) s

/-- The trace of a run carries the writer's marker. -/
def marked (traces : TraceFiles) (runId : Text) : Bool :=
  (eventsOf traces runId).any fun event => isEvent event .traceLimitReached

/-- A budgeted event is not cut down, and where an event finds no room in a trace
    that has no marker yet, the marker fits. -/
def Session.heeds (limits : TraceLimits) (py : Builtins) (s : Session) : Event → Bool
  | .emit emission stamp markerStamp =>
    match s.live with
    | none => true
    | some live =>
      let file := (s.traces.get? live.runId).getD []
      let line := Trace.encodeLine
        (Trace.traceRecord live.ids.fields emission.event (emission.payload py) stamp)
      ((emission.block py).isNone || byteLength line ≤ limits.maxEventBytes) &&
        match live.record limits py emission stamp with
        | .error _ => true
        | .ok record => Trace.hasRoom limits file record || marked s.traces live.runId ||
            Trace.hasRoom limits file (Trace.limitMarker limits live.ids.fields markerStamp)
  | _ => true

def Session.heedsAll (limits : TraceLimits) (py : Builtins) (s : Session) : List Event → Bool
  | [] => true
  | event :: events =>
    s.heeds limits py event && (s.step limits py event).heedsAll limits py events

end SessionResume

end AutoTrade
