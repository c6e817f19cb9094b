import AutoTrade.Common.JsonGrammar
import AutoTrade.Common.Lines
import AutoTrade.Common.PyValue
import AutoTrade.Misc.Runs
import Mathlib.Data.Rat.Defs

/-!
# Replies of a provider

The parsers of `environment/llm/openai_compatible.py`: one for a whole reply, and one that
reassembles a reply from the data lines of an event stream; and the parser of one tool call that
both share.
-/

namespace AutoTrade.Llm

open Utf8 (Bytes)
open CodePoint (ofText)
open PyValue (lit)
open PyJson (get? loads)

/-- An `LLMProxyError`, or one of its subclasses. -/
inductive ReplyError where
  | proxy (message : PyStr) (retryable : Bool)
  | malformed (message content : PyStr) (reasoning : Option PyStr)
  | refusal (message : PyStr)

/-- What the retry policy asks an error. -/
def ReplyError.retryable : ReplyError → Bool
  | proxy _ retryable => retryable
  | _ => false

def ReplyError.isMalformed : ReplyError → Bool
  | malformed _ _ _ => true
  | _ => false

/-- `str` of a value, and of the error that `json.loads` raises for a text. -/
structure Builtins where
  str : PyJson → PyStr
  decodeError : PyStr → PyStr

def digitsValue (t : Text) : Nat :=
  t.foldl (fun n c => if PyJson.isDigit c then n * 10 + (c.toNat - 48) else n) 0

/-- Whether a float is read as an infinity: it is past half a step over the greatest double. -/
def overflows (token : Text) : Bool :=
  let mantissa := token.takeWhile fun c => c ≠ 'e' && c ≠ 'E'
  let exponent := (token.dropWhile fun c => c ≠ 'e' && c ≠ 'E').tail
  let fraction := (mantissa.dropWhile (· ≠ '.')).tail
  let power : Int := (if exponent.head? = some '-' then -(digitsValue exponent : Int)
    else digitsValue exponent) - fraction.length
  decide ((2 ^ 1024 - 2 ^ 970 : Rat) ≤ (digitsValue mantissa : Rat) * (10 : Rat) ^ power)

/-- No NaN and no infinity. -/
def finiteLeaf : PyJson → Bool
  | .constant _ => false
  | .float token => !overflows token
  | _ => true

/-- An object that `json.dumps(value, allow_nan=False)` takes. -/
def finitePairs (pairs : List (PyStr × PyJson)) : Bool := PyJson.allPairs finiteLeaf pairs

/-- What `if value` tests. -/
def truthy : PyJson → Bool
  | .null => false
  | .bool value => value
  | .int token => digitsValue token ≠ 0
  | .float token =>
    digitsValue (token.takeWhile fun c => c ≠ 'e' && c ≠ 'E') ≠ 0
  | .constant _ => true
  | .str value => !value.isEmpty
  | .list items => !items.isEmpty
  | .dict pairs => !pairs.isEmpty

def isSpacePoint : CodePoint → Bool
  | .char c => isSpace c
  | .surrogate _ => false

/-- `str.strip`. -/
def strip (s : PyStr) : PyStr :=
  ((s.dropWhile isSpacePoint).reverse.dropWhile isSpacePoint).reverse

/-- `ToolCall`: its id and name are not empty and its arguments have a form in JSON. The pairs of an
object stand as they were set: of pairs with one key the last counts. -/
structure ToolCall where
  id : PyStr
  name : PyStr
  arguments : List (PyStr × PyJson)
  id_ne_nil : id ≠ []
  name_ne_nil : name ≠ []
  finite_arguments : finitePairs arguments = true

/-- `ProviderResponse`: it has content or tool calls, or else reasoning that is not blank. -/
structure ProviderResponse where
  content : PyStr
  toolCalls : List ToolCall
  model : PyStr
  usage : List (PyStr × PyJson)
  reasoning : Option PyStr
  finite_usage : finitePairs usage = true
  filled : content ≠ [] ∨ toolCalls ≠ [] ∨ ∃ text, reasoning = some text ∧ strip text ≠ []

/-- `ToolCall(id, name, arguments)`, or what its `ValueError` says. -/
def ToolCall.make (id name : PyStr) (arguments : List (PyStr × PyJson)) : Except PyStr ToolCall :=
  if named : id ≠ [] ∧ name ≠ [] then
    if fits : finitePairs arguments = true then .ok ⟨id, name, arguments, named.1, named.2, fits⟩
    else .error (lit "value must be JSON-compatible")
  else .error (lit "tool call id and name must be non-empty")

def emptyResponse : PyStr := lit "provider response must contain content or tool calls"

/-- `ProviderResponse(...)`; an empty reply may be asked for again. -/
def ProviderResponse.make (content : PyStr) (toolCalls : List ToolCall) (model : PyStr)
    (usage : List (PyStr × PyJson)) (reasoning : Option PyStr) : Except ReplyError ProviderResponse :=
  if fits : finitePairs usage = true then
    if filled : content ≠ [] ∨ toolCalls ≠ [] ∨ ∃ text, reasoning = some text ∧ strip text ≠ [] then
      .ok ⟨content, toolCalls, model, usage, reasoning, fits, filled⟩
    else .error (.proxy emptyResponse true)
  else .error (.proxy (lit "value must be JSON-compatible") false)

def outputLimitToolCall : PyStr :=
  lit "provider output hit max_tokens inside a tool call (finish_reason=length); " ++
    lit "no call from this response was executed: re-issue it with shorter arguments, " ++
    lit "e.g. write large content in several write_file/edit_file calls"

def malformedToolCall (name detail : PyStr) : PyStr :=
  lit "provider returned a malformed tool call (tool=" ++ name ++ lit ": " ++ detail ++
    lit "); no call from this response was executed"

/-- `_malformed_tool_call_name`. -/
def malformedToolCallName (rawCall : PyJson) : PyStr :=
  match (get? (lit "function") rawCall).bind (get? (lit "name")) with
  | some (.str name) => if strip name ≠ [] then strip name else lit "<unnamed>"
  | _ => lit "<unnamed>"

variable (py : Builtins)

/-- The object that the arguments of a call are, or what is wrong with them. -/
def decodeArguments (text : PyStr) : Except PyStr (List (PyStr × PyJson)) :=
  let text := if text = [] then lit "\x7b\x7d" else text
  match loads text with
  | none => .error (py.decodeError text)
  | some (.dict pairs) => .ok pairs
  | some _ => .error (lit "tool arguments are not an object")

/-- The body of the `try`: the call, or what is wrong with it. -/
def toolCallOf (rawCall : PyJson) : Except PyStr ToolCall := do
  if !rawCall.isDict then throw (lit "tool call is not an object")
  let some callId := get? (lit "id") rawCall | throw (lit "missing field 'id'")
  let some function := get? (lit "function") rawCall | throw (lit "missing field 'function'")
  let .str callId := callId | throw (lit "tool call id is not a string")
  if !function.isDict then throw (lit "tool function is not an object")
  let some name := get? (lit "name") function | throw (lit "missing field 'name'")
  let .str name := name | throw (lit "tool function name is not a string")
  let .str text := (get? (lit "arguments") function).getD (.str [])
    | throw (lit "tool arguments are not a string")
  let arguments ← decodeArguments py text
  ToolCall.make callId name arguments

/-- `_parse_complete_tool_call`. -/
def parseCompleteToolCall (outputLimited : Bool) (content : PyStr) (reasoning : Option PyStr)
    (rawCall : PyJson) : Except ReplyError ToolCall :=
  (toolCallOf py rawCall).mapError fun detail =>
    .malformed (if outputLimited then outputLimitToolCall
      else malformedToolCall (malformedToolCallName rawCall) detail) content reasoning

def invalidResponse : ReplyError := .proxy (lit "provider returned an invalid response") false

def invalidToolCall : ReplyError := .proxy (lit "provider returned an invalid tool call") false

def invalidContent : ReplyError := .proxy (lit "provider returned invalid message content") false

/-- `_provider_refusal`. -/
def providerRefusal (content : Option PyJson) : ReplyError :=
  let message := match content with
    | some (.str text) => strip text
    | _ => []
  .refusal (lit "provider refused the request (finish_reason=content_filter); " ++
    lit "nothing from this reply was used. Provider message: " ++
    if message = [] then lit "(none)" else message)

/-- `_parse_reasoning_content`: whether a record has a reasoning field, and its text. -/
def parseReasoning (record : PyJson) : Except ReplyError (Bool × Option PyStr) :=
  match (get? (lit "reasoning_content") record).orElse fun _ => get? (lit "reasoning") record with
  | none => .ok (false, none)
  | some .null => .ok (true, none)
  | some (.str text) => .ok (true, some text)
  | some _ => .error (.proxy (lit "provider returned invalid reasoning content") false)

/-- `payload["choices"][0]` and its `message`. -/
def firstMessage (payload : PyJson) : Option (PyJson × PyJson) :=
  match get? (lit "choices") payload with
  | some (.list (choice :: _)) =>
    match get? (lit "message") choice with
    | some (.dict message) => some (choice, .dict message)
    | _ => none
  | _ => none

/-- The `finish_reason` of a reply cut off at the output limit. -/
def isLength (finishReason : Option PyJson) : Bool :=
  match finishReason with
  | some (.str reason) => reason = lit "length"
  | _ => false

def isContentFilter (finishReason : Option PyJson) : Bool :=
  match finishReason with
  | some (.str reason) => reason = lit "content_filter"
  | _ => false

/-- The tool calls of a message, not yet parsed. -/
def rawCallsOf (message : PyJson) : Except ReplyError (List PyJson) :=
  match get? (lit "tool_calls") message with
  | none | some .null => .ok []
  | some (.list rawCalls) => .ok rawCalls
  | some _ => .error invalidToolCall

/-- The content of a message with its calls: a message may have none beside calls or reasoning. -/
def contentOf (message : PyJson) (calls : List ToolCall) (reasoning : Bool × Option PyStr) :
    Except ReplyError PyStr :=
  match get? (lit "content") message with
  | none =>
    if calls.isEmpty ∧ ¬ (reasoning.1 = true ∧ ∃ text ∈ reasoning.2, strip text ≠ []) then
      .error invalidContent
    else .ok []
  | some .null => .ok []
  | some (.str content) => .ok content
  | some _ => .error invalidContent

/-- `payload.get("model") or expected_model`. -/
def modelOf (payload : PyJson) (expectedModel : PyStr) : PyStr :=
  match get? (lit "model") payload with
  | some model => if truthy model then py.str model else expectedModel
  | none => expectedModel

def usageOf (payload : PyJson) : List (PyStr × PyJson) :=
  match get? (lit "usage") payload with
  | some (.dict usage) => usage
  | _ => []

/-- `_parse_response`, from the payload on. -/
def parsePayload (payload : PyJson) (expectedModel : PyStr) : Except ReplyError ProviderResponse := do
  let some (choice, message) := firstMessage payload | throw invalidResponse
  let finishReason := get? (lit "finish_reason") choice
  if isContentFilter finishReason then throw (providerRefusal (get? (lit "content") message))
  let rawCalls ← rawCallsOf message
  let reasoning ← parseReasoning message
  let shown := match get? (lit "content") message with
    | some (.str content) => content
    | _ => []
  let calls ← rawCalls.mapM
    (parseCompleteToolCall py (isLength finishReason) shown reasoning.2)
  let content ← contentOf message calls reasoning
  ProviderResponse.make content calls (modelOf py payload expectedModel) (usageOf payload) reasoning.2

/-- `json.loads(raw.decode("utf-8"))`. -/
def loadsBytes (raw : Bytes) : Option PyJson := (CodePoint.decode raw).bind fun t => loads (ofText t)

/-- `_parse_response`. -/
def parseResponse (raw : Bytes) (expectedModel : PyStr) : Except ReplyError ProviderResponse :=
  match loadsBytes raw with
  | none => .error invalidResponse
  | some payload => parsePayload py payload expectedModel

/-- `raw.lstrip().startswith(b"{")`. -/
def isBody (raw : Bytes) : Bool :=
  (raw.dropWhile fun b => b ∈ [9, 10, 11, 12, 13, 32]).head? = some 123

/-- A line that is none of the stream's data, or the text of its data. -/
def dataOf (line : Text) : Option Text :=
  let stripped := stripText line
  if "data:".toList.isPrefixOf stripped then some (stripText (stripped.drop 5)) else none

def doneMark : Text := "[DONE]".toList

/-- A tool call that is being assembled. -/
structure Assembled where
  id : PyStr
  name : PyStr
  arguments : PyStr

/-- What a stream has come to: its tool calls stand by index, in the order they came up. -/
structure StreamState where
  content : PyStr
  reasoning : Option PyStr
  tools : List (Int × Assembled)
  model : PyStr
  usage : List (PyStr × PyJson)
  finishReason : Option PyJson

def StreamState.start (expectedModel : PyStr) : StreamState := ⟨[], none, [], expectedModel, [], none⟩

def invalidStream : ReplyError := .proxy (lit "provider returned an invalid stream") false

def invalidIndex : ReplyError := .proxy (lit "provider returned an invalid stream tool index") false

def cutOff : ReplyError := .proxy (lit "provider stream was cut off before its finish_reason") true

/-- The value of an int as `json.loads` reads it. -/
def intValue (token : Text) : Int :=
  if token.head? = some '-' then -(digitsValue token : Int) else digitsValue token

/-- A text field of a fragment: nothing, or a text to add. -/
def fragment (key : String) (record : PyJson) : Except ReplyError PyStr :=
  match get? (lit key) record with
  | none | some .null => .ok []
  | some (.str text) => .ok text
  | some _ => .error invalidStream

/-- The `index` of a fragment. -/
def indexOf (rawCall : PyJson) : Except ReplyError Int :=
  match get? (lit "index") rawCall with
  | none => .ok 0
  | some (.int token) => .ok (intValue token)
  | some _ => .error invalidIndex

/-- The name and the arguments that a fragment adds. -/
def functionFragment (rawCall : PyJson) : Except ReplyError (PyStr × PyStr) :=
  match get? (lit "function") rawCall with
  | none | some .null => .ok ([], [])
  | some (.dict function) => do
    let name ← fragment "name" (.dict function)
    let arguments ← fragment "arguments" (.dict function)
    pure (name, arguments)
  | some _ => .error invalidStream

/-- A fragment joins the call of its index, or begins it. -/
def joinCall (index : Int) (id name arguments : PyStr) : List (Int × Assembled) →
    List (Int × Assembled)
  | [] => [(index, ⟨id, name, arguments⟩)]
  | (i, call) :: rest =>
    if i = index then (i, ⟨call.id ++ id, call.name ++ name, call.arguments ++ arguments⟩) :: rest
    else (i, call) :: joinCall index id name arguments rest

/-- One fragment of a tool call. -/
def feedCall (tools : List (Int × Assembled)) (rawCall : PyJson) :
    Except ReplyError (List (Int × Assembled)) := do
  if !rawCall.isDict then throw invalidStream
  let index ← indexOf rawCall
  let id ← fragment "id" rawCall
  let (name, arguments) ← functionFragment rawCall
  pure (joinCall index id name arguments tools)

/-- The content of a delta. -/
def deltaContent (delta : PyJson) : Except ReplyError PyStr :=
  match get? (lit "content") delta with
  | none | some .null => .ok []
  | some (.str text) => .ok text
  | some _ => .error invalidContent

def deltaCalls (delta : PyJson) : Except ReplyError (List PyJson) :=
  match get? (lit "tool_calls") delta with
  | none | some .null => .ok []
  | some (.list rawCalls) => .ok rawCalls
  | some _ => .error invalidStream

/-- The `delta` of a chunk's first choice. -/
def feedDelta (state : StreamState) (delta : PyJson) : Except ReplyError StreamState := do
  if !delta.isDict then throw invalidStream
  let content ← deltaContent delta
  let (_, reasoning) ← parseReasoning delta
  let rawCalls ← deltaCalls delta
  let tools ← rawCalls.foldlM feedCall state.tools
  pure { state with
    content := state.content ++ content
    reasoning := match reasoning with
      | some text => some (state.reasoning.getD [] ++ text)
      | none => state.reasoning
    tools }

/-- The model and the usage that a chunk names. -/
def StreamState.note (state : StreamState) (chunk : PyJson) : StreamState :=
  { state with
    model := modelOf py chunk state.model
    usage := match get? (lit "usage") chunk with
      | some (.dict usage) => usage
      | _ => state.usage }

/-- The `finish_reason` that a choice names. -/
def StreamState.finishes (state : StreamState) (choice : PyJson) : StreamState :=
  match get? (lit "finish_reason") choice with
  | none | some .null => state
  | some reason => { state with finishReason := some reason }

/-- One chunk. -/
def feedChunk (state : StreamState) (chunk : PyJson) : Except ReplyError StreamState :=
  if !chunk.isDict then .error invalidStream
  else
    let state := state.note py chunk
    match get? (lit "choices") chunk with
    | none => .ok state
    | some (.list choices) =>
      if choices.any (!·.isDict) then .error invalidStream
      else
        match choices with
        | [] => .ok state
        | choice :: _ =>
          match get? (lit "delta") choice with
          | none => .ok (state.finishes choice)
          | some delta => feedDelta (state.finishes choice) delta
    | some _ => .error invalidStream

/-- The lines of a stream, up to its end or its `[DONE]`. -/
def feedLines (state : StreamState) : List Text → Except ReplyError StreamState
  | [] => .ok state
  | line :: rest =>
    match dataOf line with
    | none => feedLines state rest
    | some item =>
      if item = doneMark then .ok state
      else
        match loads (ofText item) with
        | none => .error invalidStream
        | some chunk => do
          let state ← feedChunk py state chunk
          feedLines state rest

/-- An assembled call, as `_parse_complete_tool_call` takes it. -/
def Assembled.raw (call : Assembled) : PyJson :=
  .dict [(lit "id", .str call.id),
    (lit "function", .dict [(lit "name", .str call.name), (lit "arguments", .str call.arguments)])]

/-- The reply that a stream has come to. -/
def conclude (state : StreamState) : Except ReplyError ProviderResponse := do
  if state.finishReason.isNone then throw cutOff
  if isContentFilter state.finishReason then throw (providerRefusal (some (.str state.content)))
  let calls ← state.tools.mapM fun tool =>
    parseCompleteToolCall py (isLength state.finishReason) state.content state.reasoning tool.2.raw
  ProviderResponse.make state.content calls state.model state.usage state.reasoning

/-- `_parse_stream_response`. -/
def parseStreamResponse (raw : Bytes) (expectedModel : PyStr) : Except ReplyError ProviderResponse :=
  if isBody raw then parseResponse py raw expectedModel
  else
    match CodePoint.decode raw with
    | none => .error invalidStream
    | some t => do
      let state ← feedLines py (.start expectedModel) (splitLines t)
      conclude py state

end AutoTrade.Llm
