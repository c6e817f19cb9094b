import AutoTrade.Common.JsonObject

/-!
# The trace of a research attempt

A JSONL stream with two limits. An event too large for one record is cut down to
a stub, and one the file has no room for is dropped: the writer then leaves a
marker, if that fits, and stops. Payloads are taken as `sanitize_for_log` leaves
them; the transcript beside the trace is not modelled.
-/

namespace AutoTrade

open Json JsonLines

inductive TraceEvent where
  | sessionStart
  | sessionEnd
  | llmCallStarted
  | llmCall
  | outputTruncated
  | toolCallStarted
  | toolCall
  | toolSkipped
  | userMessage
  | timeBudgetNotice
  | wrapUpStarted
  | contextCompaction
  | contextEdit
  | contextNotice
  | contextOutputClamped
  | subagentAttempt
  | subagentWaitStarted
  | subagent
  | subagentTask
  | subagentSteer
  | subagentWrapUp
  | subagentLlm
  | subagentLlmError
  | subagentOutputTruncated
  | subagentTool
  | subagentContextCompaction
  | subagentContextEdit
  | sessionError
  | environmentStage
  | environmentBlocked
  | batchRejectionEscalated
  /-- The writer's own marker: the trace is full and stops here. -/
  | traceLimitReached
  deriving DecidableEq

def TraceEvent.name : TraceEvent → Text
  | sessionStart => "session_start".toList
  | sessionEnd => "session_end".toList
  | llmCallStarted => "llm_call_started".toList
  | llmCall => "llm_call".toList
  | outputTruncated => "output_truncated".toList
  | toolCallStarted => "tool_call_started".toList
  | toolCall => "tool_call".toList
  | toolSkipped => "tool_skipped".toList
  | userMessage => "user_message".toList
  | timeBudgetNotice => "time_budget_notice".toList
  | wrapUpStarted => "wrap_up_started".toList
  | contextCompaction => "context_compaction".toList
  | contextEdit => "context_edit".toList
  | contextNotice => "context_notice".toList
  | contextOutputClamped => "context_output_clamped".toList
  | subagentAttempt => "subagent_attempt".toList
  | subagentWaitStarted => "subagent_wait_started".toList
  | subagent => "subagent".toList
  | subagentTask => "subagent_task".toList
  | subagentSteer => "subagent_steer".toList
  | subagentWrapUp => "subagent_wrap_up".toList
  | subagentLlm => "subagent_llm".toList
  | subagentLlmError => "subagent_llm_error".toList
  | subagentOutputTruncated => "subagent_output_truncated".toList
  | subagentTool => "subagent_tool".toList
  | subagentContextCompaction => "subagent_context_compaction".toList
  | subagentContextEdit => "subagent_context_edit".toList
  | sessionError => "session_error".toList
  | environmentStage => "environment_stage".toList
  | environmentBlocked => "environment_blocked".toList
  | batchRejectionEscalated => "batch_rejection_escalated".toList
  | traceLimitReached => "trace_limit_reached".toList

theorem TraceEvent.name_ne_limit {event : TraceEvent} (other : event ≠ traceLimitReached) :
    event.name ≠ traceLimitReached.name := by
  cases event with
  | traceLimitReached => exact absurd rfl other
  | _ => decide +kernel

structure TraceLimits where
  maxBytes : Nat
  maxEventBytes : Nat
  valid : 0 < maxBytes ∧ 0 < maxEventBytes ∧ maxEventBytes ≤ maxBytes

/-- `TRACE_MAX_BYTES` and `TRACE_MAX_EVENT_BYTES`. -/
def traceLimits : TraceLimits := ⟨32 * 1024 * 1024, 256 * 1024, by decide⟩

def traceContentPreviewChars : Nat := 32000

def tracePayloadHeadChars : Nat := 8000

def traceStubKeys : List String := ["status", "call_index", "tool", "tool_names"]

/-- The clock and the id a record is given. -/
structure TraceStamp where
  ts : Text
  eventId : Text

/-- The trace identifiers exceed the per-event size limit. -/
inductive TraceError where
  | identifiersTooLarge
  deriving DecidableEq

/-- The trace's file, and whether its writer has stopped. -/
structure Trace where
  file : Text := []
  full : Bool := false

namespace Trace

/-- The line a record is written as. -/
def encodeLine (record : JsonObject) : Text := dumpLine (sortFields record)

/-- `str(value or "")`; `render` is the `str` of what is not a string. -/
def shownText (render : Json → Text) : Option Json → Text
  | none => []
  | some (str t) => t
  | some v => if v.truthy then render v else []

def idFields (ids : List (String × Text)) : List (String × Json) :=
  ids.map fun entry => (entry.1, str entry.2)

/-- The record of an event, whatever its size. -/
def traceRecord (ids : List (String × Text)) (event : TraceEvent) (payload : JsonObject)
    (stamp : TraceStamp) : JsonObject :=
  payload.update ([("event_type", str event.name), ("ts", str stamp.ts),
    ("event_id", str stamp.eventId)] ++ idFields ids)

/-- `_trace_payload_head`. -/
def tracePayloadHead (payload : JsonObject) : Json :=
  let body := payload.without (traceStubKeys ++ ["content", "error"])
  if body = [] then null
  else str ((dumps (obj (sortFields body))).take tracePayloadHeadChars)

/-- What an over-sized event keeps. -/
def stubRecord (render : Json → Text) (ids : List (String × Text)) (event : TraceEvent)
    (payload : JsonObject) (stamp : TraceStamp) (originalBytes : Nat) : JsonObject :=
  let record := traceRecord ids event payload stamp
  let error := (shownText render (record.field "error")).take 4000
  JsonObject.update [] ([("event_type", str event.name), ("ts", str stamp.ts),
    ("event_id", str stamp.eventId)] ++ idFields ids ++
    [("truncated", .bool true), ("original_bytes", num (.ofNat originalBytes))] ++
    traceStubKeys.map (fun key => (key, (record.field key).getD null)) ++
    [("content_preview",
        str ((shownText render (record.field "content")).take traceContentPreviewChars)),
      ("payload_head", tracePayloadHead payload),
      ("error", if error = [] then null else str error)])

/-- The record that goes to the file. -/
def sizedRecord (limits : TraceLimits) (render : Json → Text) (ids : List (String × Text))
    (event : TraceEvent) (payload : JsonObject) (stamp : TraceStamp) :
    Except TraceError JsonObject :=
  let record := traceRecord ids event payload stamp
  let originalBytes := byteLength (encodeLine record)
  if originalBytes ≤ limits.maxEventBytes then .ok record
  else
    let stub := stubRecord render ids event payload stamp originalBytes
    if byteLength (encodeLine stub) ≤ limits.maxEventBytes then .ok stub
    else
      let bare := stub.without ["content_preview", "payload_head", "error"]
      if byteLength (encodeLine bare) ≤ limits.maxEventBytes then .ok bare
      else .error .identifiersTooLarge

def limitMarker (limits : TraceLimits) (ids : List (String × Text)) (stamp : TraceStamp) :
    JsonObject :=
  JsonObject.update [] ([("event_type", str TraceEvent.traceLimitReached.name),
    ("ts", str stamp.ts), ("event_id", str stamp.eventId)] ++ idFields ids ++
    [("max_bytes", num (.ofNat limits.maxBytes))])

/-- The file has room for the record. -/
def hasRoom (limits : TraceLimits) (file : Text) (record : JsonObject) : Bool :=
  byteLength file + byteLength (encodeLine record) ≤ limits.maxBytes

/-- The writer stops, on its marker where that fits. -/
def stop (limits : TraceLimits) (trace : Trace) (marker : JsonObject) : Trace :=
  if trace.full then trace
  else if hasRoom limits trace.file marker then
    { file := trace.file ++ encodeLine marker, full := true }
  else { trace with full := true }

def write (limits : TraceLimits) (trace : Trace) (record marker : JsonObject) : Trace :=
  if trace.full || !hasRoom limits trace.file record then trace.stop limits marker
  else { trace with file := trace.file ++ encodeLine record }

/-- `AgentTraceWriter.emit`. -/
def emit (limits : TraceLimits) (render : Json → Text) (ids : List (String × Text))
    (trace : Trace) (event : TraceEvent) (payload : JsonObject)
    (stamp markerStamp : TraceStamp) : Except TraceError Trace := do
  let record ← sizedRecord limits render ids event payload stamp
  return trace.write limits record (limitMarker limits ids markerStamp)

end Trace

end AutoTrade
