import AutoTrade.Environment.Llm.Replies

/-!
# The relay's responses dialect

The parsers of `environment/llm/lighting.py`: one for a whole responses object, and one that
reassembles it from the events of a stream, which ends with the object as its terminal event.
-/

namespace AutoTrade.Llm

open Utf8 (Bytes)
open CodePoint (ofText)
open PyValue (lit)
open PyJson (get? loads)

variable (py : Builtins)

/-- `_refusal`. -/
def responsesRefusal (message : PyStr) : ReplyError :=
  .refusal (lit "provider refused the request (responses refusal); " ++
    lit "nothing from this reply was used. Provider message: " ++
    if strip message = [] then lit "(none)" else strip message)

/-- `isinstance(value, int) and not isinstance(value, bool)`. -/
def isInt : Option PyJson → Bool
  | some (.int _) => true
  | _ => false

/-- The own count of a usage under the shared name, where that has none. -/
def shareCount (usage : List (PyStr × PyJson)) (names : PyStr × PyStr) : List (PyStr × PyJson) :=
  match get? names.2 (.dict usage) with
  | some (.int count) =>
    if (get? names.1 (.dict usage)).isSome then usage else usage ++ [(names.1, .int count)]
  | _ => usage

/-- `_responses_usage`. -/
def responsesUsage : Option PyJson → List (PyStr × PyJson)
  | some (.dict usage) => [(lit "prompt_tokens", lit "input_tokens"),
      (lit "completion_tokens", lit "output_tokens")].foldl shareCount usage
  | _ => []

/-- `record.get("message") or record.get("code") or "no detail"`. -/
def detailOf (record : PyJson) : PyStr :=
  let shown := fun value : Option PyJson => value.filter truthy
  match (shown (get? (lit "message") record)).orElse fun _ => shown (get? (lit "code") record) with
  | some detail => py.str detail
  | none => lit "no detail"

/-- `_responses_failure`. -/
def responsesFailure (decoded : PyJson) : Option ReplyError :=
  match get? (lit "error") decoded with
  | some (.dict error) =>
    some (.proxy (lit "provider response failed: " ++ detailOf py (.dict error)) false)
  | _ => none

/-- `incomplete_details.reason`. -/
def incompleteReason (decoded : PyJson) : Option PyJson :=
  match get? (lit "incomplete_details") decoded with
  | some (.dict details) => get? (lit "reason") (.dict details)
  | _ => none

def isReason (reason : Option PyJson) (name : PyStr) : Bool :=
  match reason with
  | some (.str text) => text = name
  | _ => false

/-- `_tool_call_from_item`. -/
def toolCallFromItem (outputLimited : Bool) (content : PyStr) (callId name arguments : PyJson) :
    Except ReplyError ToolCall :=
  parseCompleteToolCall py outputLimited content none
    (.dict [(lit "id", callId),
      (lit "function", .dict [(lit "name", name), (lit "arguments", arguments)])])

/-- `record.get(key)`, with `None` for what is not there. -/
def getOrNull (key : String) (record : PyJson) : PyJson := (get? (lit key) record).getD .null

/-- The text of the parts of a message, or a refusal among them. -/
def feedPart (text : PyStr) (part : PyJson) : Except ReplyError PyStr :=
  if !part.isDict then .error invalidResponse
  else if isReason (get? (lit "type") part) (lit "output_text") then
    match get? (lit "text") part with
    | some (.str more) => .ok (text ++ more)
    | _ => .error invalidResponse
  else if isReason (get? (lit "type") part) (lit "refusal") then
    match get? (lit "refusal") part with
    | some (.str message) => .error (responsesRefusal message)
    | _ => .error (responsesRefusal [])
  else .ok text

/-- One item of the output: a message adds its text, a call is parsed. -/
def feedItem (outputLimited : Bool) (state : PyStr × List ToolCall) (item : PyJson) :
    Except ReplyError (PyStr × List ToolCall) :=
  if !item.isDict then .error invalidResponse
  else if isReason (get? (lit "type") item) (lit "message") then
    match get? (lit "content") item with
    | some (.list parts) => do
      let text ← parts.foldlM feedPart state.1
      pure (text, state.2)
    | _ => .error invalidResponse
  else if isReason (get? (lit "type") item) (lit "function_call") then do
    let call ← toolCallFromItem py outputLimited state.1 (getOrNull "call_id" item)
      (getOrNull "name" item) (getOrNull "arguments" item)
    pure (state.1, state.2 ++ [call])
  else .ok state

/-- `_responses_provider_response`. -/
def responsesProviderResponse (decoded : PyJson) (expectedModel : PyStr) :
    Except ReplyError ProviderResponse := do
  if let some failure := responsesFailure py decoded then throw failure
  let reason := incompleteReason decoded
  let some (.list output) := get? (lit "output") decoded | throw invalidResponse
  let (text, calls) ←
    output.foldlM (feedItem py (isReason reason (lit "max_output_tokens"))) ([], [])
  if isReason reason (lit "content_filter") then throw (responsesRefusal [])
  ProviderResponse.make text calls (modelOf py decoded expectedModel)
    (responsesUsage (get? (lit "usage") decoded)) none

/-- `_parse_responses`. -/
def parseResponses (raw : Bytes) (expectedModel : PyStr) : Except ReplyError ProviderResponse :=
  match loadsBytes raw with
  | some (.dict pairs) => responsesProviderResponse py (.dict pairs) expectedModel
  | _ => .error invalidResponse

/-- What a call's events name it by. -/
inductive CallKey where
  | index (i : Int)
  | item (id : PyStr)
  deriving DecidableEq

/-- What a stream has come to: its deltas, none or joined, its calls in the order they came up, and
its terminal event. -/
structure EventState where
  content : Option PyStr
  refusal : Option PyStr
  calls : List (CallKey × Assembled)
  terminal : Option PyJson

def EventState.start : EventState := ⟨none, none, [], none⟩

def cutOffTerminal : ReplyError :=
  .proxy (lit "provider stream was cut off before its terminal event") true

/-- A text that is there and not empty. -/
def filledText : Option PyJson → Option PyStr
  | some (.str text) => if text = [] then none else some text
  | _ => none

/-- `_event_call_key`. -/
def eventCallKey (event : PyJson) (item : Option PyJson) : Except ReplyError CallKey :=
  match get? (lit "output_index") event with
  | some (.int token) => .ok (.index (intValue token))
  | _ =>
    match (filledText (item.bind (get? (lit "id")))).orElse fun _ =>
        filledText (get? (lit "item_id") event) with
    | some id => .ok (.item id)
    | none => .error invalidStream

/-- A call's record, changed where it stands, or a new one. -/
def changeCall (key : CallKey) (change : Assembled → Assembled) :
    List (CallKey × Assembled) → List (CallKey × Assembled)
  | [] => [(key, change ⟨[], [], []⟩)]
  | (k, call) :: rest =>
    if k = key then (k, change call) :: rest else (k, call) :: changeCall key change rest

/-- The id and the name that an item gives its call. -/
def Assembled.named (call : Assembled) (item : PyJson) : Assembled :=
  { call with
    id := (filledText (get? (lit "call_id") item)).getD call.id
    name := (filledText (get? (lit "name") item)).getD call.name }

/-- The arguments of a completed item take the place of the deltas, unless they are empty. -/
def Assembled.superseded (call : Assembled) (arguments : PyStr) : Assembled :=
  if arguments = [] then call else { call with arguments }

/-- `_record_function_call`. -/
def recordFunctionCall (final : Bool) (calls : List (CallKey × Assembled)) (event : PyJson) :
    Except ReplyError (List (CallKey × Assembled)) :=
  match get? (lit "item") event with
  | some (.dict item) =>
    if isReason (get? (lit "type") (.dict item)) (lit "function_call") then do
      let key ← eventCallKey event (some (.dict item))
      let calls := changeCall key (·.named (.dict item)) calls
      if final then
        match get? (lit "arguments") (.dict item) with
        | some (.str arguments) => pure (changeCall key (·.superseded arguments) calls)
        | _ => throw invalidStream
      else pure calls
    else pure calls
  | _ => .ok calls

/-- The `delta` of a call's arguments. -/
def feedArguments (calls : List (CallKey × Assembled)) (event : PyJson) :
    Except ReplyError (List (CallKey × Assembled)) := do
  let key ← eventCallKey event none
  if key ∉ calls.map Prod.fst then throw invalidStream
  match get? (lit "delta") event with
  | some (.str delta) =>
    pure (changeCall key (fun call => { call with arguments := call.arguments ++ delta }) calls)
  | _ => throw invalidStream

def terminalKinds : List PyStr :=
  [lit "response.completed", lit "response.incomplete", lit "response.failed"]

/-- The event whose `type` is a text. -/
def feedKind (state : EventState) (event : PyJson) (kind : PyStr) : Except ReplyError EventState :=
  if kind ∈ terminalKinds then
    match get? (lit "response") event with
    | some (.dict response) => .ok { state with terminal := some (.dict response) }
    | _ => .error invalidStream
  else if kind = lit "error" then
    .error (.proxy (lit "provider stream failed: " ++ detailOf py event) false)
  else if kind = lit "response.output_item.added" then do
    let calls ← recordFunctionCall false state.calls event
    pure { state with calls }
  else if kind = lit "response.output_item.done" then do
    let calls ← recordFunctionCall true state.calls event
    pure { state with calls }
  else if kind = lit "response.function_call_arguments.delta" then do
    let calls ← feedArguments state.calls event
    pure { state with calls }
  else if kind = lit "response.output_text.delta" then
    match get? (lit "delta") event with
    | some (.str delta) => .ok { state with content := some (state.content.getD [] ++ delta) }
    | _ => .error invalidStream
  else if kind = lit "response.refusal.delta" then
    match get? (lit "delta") event with
    | some (.str delta) => .ok { state with refusal := some (state.refusal.getD [] ++ delta) }
    | _ => .ok state
  else .ok state

/-- What the gateway makes of the `TypeError` for a type that no set can hold. -/
def unhashable : ReplyError := .proxy (lit "provider response failed: unhashable type") false

/-- One event. -/
def feedEvent (state : EventState) (event : PyJson) : Except ReplyError EventState :=
  if !event.isDict then .error invalidStream
  else
    match get? (lit "type") event with
    | some (.str kind) => feedKind py state event kind
    | some (.list _) => .error unhashable
    | some (.dict _) => .error unhashable
    | _ => .ok state

/-- The lines of a stream; an empty one and `[DONE]` are passed over. -/
def feedEvents (state : EventState) : List Text → Except ReplyError EventState
  | [] => .ok state
  | line :: rest =>
    match dataOf line with
    | none => feedEvents state rest
    | some item =>
      if item = [] ∨ item = doneMark then feedEvents state rest
      else
        match loads (ofText item) with
        | none => .error invalidStream
        | some event => do
          let state ← feedEvent py state event
          feedEvents state rest

/-- The reply that a stream has come to. -/
def concludeEvents (state : EventState) (expectedModel : PyStr) :
    Except ReplyError ProviderResponse := do
  if let some refusal := state.refusal then throw (responsesRefusal refusal)
  let some terminal := state.terminal | throw cutOffTerminal
  if state.content.isNone && state.calls.isEmpty then
    return ← responsesProviderResponse py terminal expectedModel
  if let some failure := responsesFailure py terminal then throw failure
  let reason := incompleteReason terminal
  if isReason reason (lit "content_filter") then throw (responsesRefusal [])
  let content := state.content.getD []
  let calls ← state.calls.mapM fun call =>
    toolCallFromItem py (isReason reason (lit "max_output_tokens")) content
      (.str call.2.id) (.str call.2.name) (.str call.2.arguments)
  ProviderResponse.make content calls (modelOf py terminal expectedModel)
    (responsesUsage (get? (lit "usage") terminal)) none

/-- `_parse_responses_stream`. -/
def parseResponsesStream (raw : Bytes) (expectedModel : PyStr) :
    Except ReplyError ProviderResponse :=
  if isBody raw then parseResponses py raw expectedModel
  else
    match CodePoint.decode raw with
    | none => .error invalidStream
    | some t => do
      let state ← feedEvents py .start (splitLines t)
      concludeEvents py state expectedModel

end AutoTrade.Llm
