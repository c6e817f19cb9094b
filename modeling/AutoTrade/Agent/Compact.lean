import AutoTrade.Common.JsonWriter
import AutoTrade.Environment.Llm.Replies

/-!
# Fitting the request of a compaction

`fit_tool_results_to_context` and `ContextCompactor._fit_compact_request` of `agent/compact.py`: tool
results are replaced by summaries of them, the largest first, until the request fits. What a request
is made of the messages, how large a request is, how a float is written and what the store of tool
results answers are left open.
-/

namespace AutoTrade.Compact

open CodePoint (ofText)
open PyValue (lit)
open PyJson (writeString isDigit)

/-- What is raised, which is always a `ValueError`: one of the module's own, by `int` for a number of
too many digits, or by `json.dumps` for a number that is not finite. -/
inductive Failure where
  | value (message : PyStr)
  | manyDigits
  | notFinite
  deriving DecidableEq

inductive Role where
  | system
  | user
  | assistant
  | tool
  deriving DecidableEq

/-- `ChatMessage`, with what `__post_init__` demands. -/
structure ChatMessage where
  role : Role
  content : Option PyStr
  toolCalls : List Llm.ToolCall
  toolCallId : Option PyStr
  reasoningContent : Option PyStr
  bound : role = .tool → (∃ id, toolCallId = some id ∧ id ≠ []) ∧ content.isSome
  called : role ≠ .assistant → toolCalls = [] ∧ reasoningContent = none
  filled : content = none → toolCalls ≠ []

namespace ChatMessage

/-- `message.content or ""`. -/
def text (message : ChatMessage) : PyStr := message.content.getD []

def chars (message : ChatMessage) : Nat := message.text.length

/-- `ChatMessage("tool", content, tool_call_id=message.tool_call_id)`. -/
def answer (message : ChatMessage) (tool : message.role = .tool) (content : PyStr) : ChatMessage where
  role := .tool
  content := some content
  toolCalls := []
  toolCallId := message.toolCallId
  reasoningContent := none
  bound := fun _ => ⟨(message.bound tool).1, rfl⟩
  called := fun _ => ⟨rfl, rfl⟩
  filled := nofun

end ChatMessage

/-- Whether a number that ends here is one that `int` refuses; an exponent or a fraction without
digits is none, and what stands before it is read alone. -/
def refused (token : Text) (phase : PyJson.Phase) : Bool :=
  phase ≠ .fraction && phase ≠ .exponentDigits &&
    !((phase = .exponent || phase = .exponentSign) && token.contains '.') &&
    4300 < ((token.takeWhile fun c => c = '-' || isDigit c).filter isDigit).length

/-- Whether `json.loads` comes upon such a number before anything else that is wrong. -/
def comesUponRefused (state : PyJson.State) : PyStr → Bool
  | [] => stops state
  | point :: rest =>
    match PyJson.step 4300 state point with
    | some next => comesUponRefused next rest
    | none => stops state
where
  stops : PyJson.State → Bool
    | .reading _ (.number token phase) => refused token phase
    | _ => false

mutual

/-- A value as Python holds it: of pairs with one key the last counts, where the first stands. -/
def settle : PyJson → PyJson
  | .list items => .list (settleItems items)
  | .dict pairs => .dict ((settlePairs pairs).foldl (fun d pair => Dict.put pair.1 pair.2 d) [])
  | value => value

def settleItems : List PyJson → List PyJson
  | [] => []
  | item :: rest => settle item :: settleItems rest

def settlePairs : List (PyStr × PyJson) → List (PyStr × PyJson)
  | [] => []
  | (key, value) :: rest => (key, settle value) :: settlePairs rest

end

section Floats

/- `repr` of the float that a number is read as, nothing when it is infinite. -/
variable (floatRepr : Text → Option Text)

def writeFloat (allowNan : Bool) (token : Text) : Option Text :=
  match floatRepr token with
  | some text => some text
  | none =>
    if !allowNan then none
    else if token.head? = some '-' then some "-Infinity".toList
    else some "Infinity".toList

/-- Parts between brackets. -/
def enclosed (left right : Char) (parts : List PyStr) : PyStr :=
  .char left :: ((lit ", ").intercalate parts ++ [.char right])

mutual

/-- `json.dumps(value, ensure_ascii=False, allow_nan=…)`, nothing when it raises. -/
def dumps (allowNan : Bool) : PyJson → Option PyStr
  | .null => some (lit "null")
  | .bool true => some (lit "true")
  | .bool false => some (lit "false")
  | .int token => some (ofText (if token = "-0".toList then ['0'] else token))
  | .float token => (writeFloat floatRepr allowNan token).map ofText
  | .constant name => if allowNan then some (ofText name) else none
  | .str value => some (writeString value)
  | .list items => (dumpsItems allowNan items).map (enclosed '[' ']')
  | .dict pairs => (dumpsPairs allowNan pairs).map (enclosed '\x7b' '\x7d')

def dumpsItems (allowNan : Bool) : List PyJson → Option (List PyStr)
  | [] => some []
  | item :: rest => do
    let part ← dumps allowNan item
    let parts ← dumpsItems allowNan rest
    return part :: parts

def dumpsPairs (allowNan : Bool) : List (PyStr × PyJson) → Option (List PyStr)
  | [] => some []
  | (key, value) :: rest => do
    let part ← dumps allowNan value
    let parts ← dumpsPairs allowNan rest
    return (writeString key ++ lit ": " ++ part) :: parts

end

/-- `_bounded_context_value`. -/
def boundedContextValue (value : PyJson) : PyJson :=
  match value with
  | .null | .bool _ | .int _ | .float _ | .constant _ => value
  | .str text => .str (bounded text)
  | .list _ | .dict _ => .str (bounded ((dumps floatRepr true value).getD []))
where
  bounded (text : PyStr) : PyStr :=
    if text.length ≤ 300 then text else text.take 297 ++ lit "..."

/-- `allowed` of `_retained_tool_fields`. -/
def allowed : List PyStr :=
  [lit "command_kind", lit "error", lit "node_id", lit "offset", lit "path", lit "revision_id",
    lit "rows", lit "status", lit "stderr", lit "timed_out", lit "total"]

/-- `item in (None, "", [], {})`. -/
def isBlank : PyJson → Bool
  | .null | .str [] | .list [] | .dict [] => true
  | _ => false

mutual

/-- `visit` of `_retained_tool_fields`. -/
def visit (path : PyStr) (retained : Dict PyStr PyJson) : PyJson → Dict PyStr PyJson
  | .dict pairs => if 20 ≤ retained.entries.length then retained else visitPairs path retained pairs
  | _ => retained

def visitPairs (path : PyStr) (retained : Dict PyStr PyJson) :
    List (PyStr × PyJson) → Dict PyStr PyJson
  | [] => retained
  | (key, item) :: rest =>
    let here := if path = [] then key else path ++ lit "." ++ key
    let keeps := key ∈ allowed && !isBlank item
    let kept := if keeps then retained.set here (boundedContextValue floatRepr item) else retained
    if keeps && 20 ≤ kept.entries.length then kept
    else visitPairs path (visit here kept item) rest

end

/-- `_retained_tool_fields`. -/
def retainedToolFields (content : PyStr) : Except Failure (List (PyStr × PyJson)) :=
  match PyJson.loads content with
  | some value => .ok (visit floatRepr [] .empty (settle value)).entries
  | none => if comesUponRefused PyJson.start content then .error .manyDigits else .ok []

/-- `_TOOL_CONTEXT_EXCERPT_CHARS`. -/
def toolContextExcerptChars : Nat := 500

/-- `_TOOL_CONTEXT_MIN_CHARS`. -/
def toolContextMinChars : Nat := 512

def summaryNote : PyStr :=
  lit "The exact tool result was omitted from model context to stay within the " ++
    lit "model window. Re-run a narrower paginated query when more detail is needed."

/-- The payload that stands for a result, before what the store answers. -/
def summaryPayload (content : PyStr) (retained : List (PyStr × PyJson)) : List (PyStr × PyJson) :=
  [(lit "observation", .str (lit "context_tool_result_summary")), (lit "note", .str summaryNote),
    (lit "original_chars", .int (toString content.length).toList),
    (lit "source_omitted", .bool true),
    (lit "head", .str (content.take toolContextExcerptChars)),
    (lit "tail", .str (content.drop (content.length - toolContextExcerptChars)))] ++
    if retained = [] then [] else [(lit "retained_fields", .dict retained)]

/-- What `store_tool_result` answers: where the result is, or nothing when it could not be written. -/
structure Spill where
  root : PyStr
  ref : PyStr

/-- None of these keys is one of the payload's. -/
def Spill.fields (spill : Spill) : List (PyStr × PyJson) :=
  [(lit "result_root", .str spill.root), (lit "result_ref", .str spill.ref),
    (lit "result_hint", .str (lit "full result spilled; read it back with: read_file root='" ++
      spill.root ++ lit "' path='" ++ spill.ref ++ lit "'"))]

/-- `summarize_tool_result_for_context`, with what the store has answered. -/
def summarizeToolResultForContext (message : ChatMessage) (spill : Option Spill) :
    Except Failure ChatMessage :=
  if tool : message.role = .tool then do
    let retained ← retainedToolFields floatRepr message.text
    let payload := summaryPayload message.text retained ++ (spill.map Spill.fields).getD []
    match dumps floatRepr false (.dict payload) with
    | some content => .ok (message.answer tool content)
    | none => .error .notFinite
  else .error (.value (lit "only a protocol-bound tool result can be summarized"))

/-- What `context_request_fits` returns. -/
structure Report where
  fits : Bool
  promptTokens : Nat
  contextWindow : Option Nat

/-- What `fit_tool_results_to_context` says of its edits. -/
structure ContextEdit where
  reason : PyStr
  summarizedToolResults : Nat
  charsFreed : Nat
  estimatedPromptTokensBefore : Nat
  estimatedPromptTokensAfter : Nat
  requestedMaxOutputTokens : Nat
  contextWindow : Option Nat
  fitsAfter : Bool

/-- A provider, and the answers of a store of tool results with a state of its own. -/
structure Surroundings (σ : Type) where
  estimateChatRequestTokens : List ChatMessage → Nat
  contextWindowTokens : Option Nat
  outputSharesContextWindow : Bool
  /-- `_build_compact_request`, which may raise. -/
  buildCompactRequest : List ChatMessage → Except Failure (List ChatMessage)
  storeToolResult : Option (σ → PyStr → σ × Option Spill)

variable {σ : Type} (around : Surroundings σ)

/-- `context_request_fits`. -/
def contextRequestFits (messages : List ChatMessage) (maxTokens : Nat) : Except Failure Report :=
  if maxTokens = 0 then .error (.value (lit "max_tokens must be a positive integer"))
  else
    let promptTokens := around.estimateChatRequestTokens messages
    let outputTokens := if around.outputSharesContextWindow then maxTokens else 0
    .ok ⟨around.contextWindowTokens.all fun window => promptTokens + outputTokens ≤ window,
      promptTokens, around.contextWindowTokens⟩

/-- What the loop over the candidates changes. -/
structure Fitting (σ : Type) where
  edited : List ChatMessage
  summarized : Nat
  charsFreed : Nat
  report : Report
  store : σ

/-- The results that may be summarized with their sizes, the largest first. -/
def candidates (messages : List ChatMessage) : List (Nat × Nat) :=
  ((messages.zipIdx.filter fun entry =>
    entry.1.role = .tool && toolContextMinChars ≤ entry.1.chars).map fun entry =>
      (entry.1.chars, entry.2)).insertionSort fun a b => b.1 < a.1 ∨ b.1 = a.1 ∧ b.2 ≤ a.2

/-- The spilled summary is taken only if it is still shorter. -/
def replacementFor (original replacement : ChatMessage) (store : σ) :
    Except Failure (ChatMessage × σ) :=
  match around.storeToolResult with
  | none => .ok (replacement, store)
  | some storeToolResult => do
    let (store, spill) := storeToolResult store original.text
    let spilled ← summarizeToolResultForContext floatRepr original spill
    return (if spilled.chars < original.chars then spilled else replacement, store)

variable (maxTokens : Nat)

/-- One turn of the loop over the candidates. -/
def fitCandidate (index : Nat) (fitting : Fitting σ) : Except Failure (Fitting σ) :=
  match fitting.edited[index]? with
  | none => .ok fitting
  | some original => do
    let replacement ← summarizeToolResultForContext floatRepr original none
    if original.chars ≤ replacement.chars then
      return fitting
    let (replacement, store) ← replacementFor floatRepr around original replacement fitting.store
    let edited := fitting.edited.set index replacement
    let report ← contextRequestFits around edited maxTokens
    return {
      edited, report, store, summarized := fitting.summarized + 1
      charsFreed := fitting.charsFreed + (original.chars - replacement.chars) }

def fitCandidates (force : Bool) : List (Nat × Nat) → Fitting σ → Except Failure (Fitting σ)
  | [], fitting => .ok fitting
  | (_, index) :: rest, fitting =>
    if fitting.report.fits && (!force || 0 < fitting.summarized) then .ok fitting
    else do
      let fitting ← fitCandidate floatRepr around maxTokens index fitting
      fitCandidates force rest fitting

/-- `fit_tool_results_to_context`, without tools. -/
def fitToolResultsToContext (force : Bool) (messages : List ChatMessage) (store : σ) :
    Except Failure (List ChatMessage × Option ContextEdit × σ) := do
  let before ← contextRequestFits around messages maxTokens
  let fitting ← fitCandidates floatRepr around maxTokens force (candidates messages)
    ⟨messages, 0, 0, before, store⟩
  if fitting.summarized = 0 then
    return (fitting.edited, none, fitting.store)
  return (fitting.edited, some {
    reason := lit "context_window_budget"
    summarizedToolResults := fitting.summarized
    charsFreed := fitting.charsFreed
    estimatedPromptTokensBefore := before.promptTokens
    estimatedPromptTokensAfter := fitting.report.promptTokens
    requestedMaxOutputTokens := maxTokens
    contextWindow := fitting.report.contextWindow
    fitsAfter := fitting.report.fits }, fitting.store)

/-- What `_fit_compact_request` has added up, and what it says of the request that fits. -/
structure Aggregate where
  summarizedToolResults : Nat := 0
  charsFreed : Nat := 0
  estimatedPromptTokensAfter : Option Nat := none
  contextWindow : Option Nat := none

/-- How a turn of its loop ends. -/
inductive Turn (σ : Type) where
  | returns (prepared : List ChatMessage) (aggregate : Option Aggregate)
  | again (prepared : List ChatMessage) (aggregate : Aggregate) (store : σ)

def fitTurn (prepared : List ChatMessage) (aggregate : Option Aggregate) (store : σ) :
    Except Failure (Turn σ) := do
  let request ← around.buildCompactRequest prepared
  let report ← contextRequestFits around request maxTokens
  if report.fits then
    return .returns prepared (aggregate.map fun added => { added with
      estimatedPromptTokensAfter := some report.promptTokens
      contextWindow := report.contextWindow })
  let (prepared, edit, store) ← fitToolResultsToContext floatRepr around maxTokens true prepared store
  match edit with
  | none => return .returns prepared aggregate
  | some edit =>
    let added := aggregate.getD {}
    return .again prepared { added with
      summarizedToolResults := added.summarizedToolResults + edit.summarizedToolResults
      charsFreed := added.charsFreed + edit.charsFreed } store

/-- `_fit_compact_request`, as far as it comes in so many turns. -/
def fitCompactRequest : Nat → List ChatMessage → Option Aggregate → σ →
    Option (Except Failure (List ChatMessage × Option Aggregate))
  | 0, _, _, _ => none
  | turns + 1, prepared, aggregate, store =>
    match fitTurn floatRepr around maxTokens prepared aggregate store with
    | .error failure => some (.error failure)
    | .ok (.returns prepared aggregate) => some (.ok (prepared, aggregate))
    | .ok (.again prepared added store) => fitCompactRequest turns prepared (some added) store

end Floats

end AutoTrade.Compact
