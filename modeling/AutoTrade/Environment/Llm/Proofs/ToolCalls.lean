import AutoTrade.Environment.Llm.Responses

/-!
# Tool calls that were cut off

A reply that stopped at the output limit and carries one tool call that does not parse is rejected
as a malformed tool call, by each of the parsers. A call whose arguments are a cut JSON object does
not parse unless nothing is left of them, or nothing but whitespace was cut off.
-/

namespace AutoTrade.Llm

open Utf8 (Bytes)
open CodePoint (ofText)
open PyValue (lit)
open PyJson (get? loads loadsWithin Denotes Spaces fits)

variable {py : Builtins}

/-- A raw call with an id, a name and the text of its arguments. -/
structure Shows (rawCall : PyJson) (id name text : PyStr) : Prop where
  isCall : rawCall.isDict = true
  hasId : get? (lit "id") rawCall = some (.str id)
  hasFunction : ∃ function, get? (lit "function") rawCall = some function ∧
    function.isDict = true ∧ get? (lit "name") function = some (.str name) ∧
      get? (lit "arguments") function = some (.str text)
  id_ne_nil : id ≠ []
  name_ne_nil : name ≠ []

/-- A raw call that parses. -/
def Whole (py : Builtins) (rawCall : PyJson) : Prop := ∃ call, toolCallOf py rawCall = .ok call

/-- The numbers of an object are such that Python reads and writes them. -/
def Numbers (pairs : List (PyStr × PyJson)) : Prop :=
  PyJson.allPairs (fits 4300) pairs = true ∧ finitePairs pairs = true

variable {rawCall : PyJson} {id name text : PyStr}

theorem toolCallOf_shows (shown : Shows rawCall id name text) :
    toolCallOf py rawCall = decodeArguments py text >>= ToolCall.make id name := by
  have ⟨isCall, hasId, ⟨function, hasFunction, isFunction, hasName, hasText⟩, _, _⟩ := shown
  simp [toolCallOf, isCall, hasId, hasFunction, isFunction, hasName, hasText]

variable {pairs : List (PyStr × PyJson)} {call : ToolCall}

theorem make_eq_ok {id name : PyStr} (id_ne_nil : id ≠ []) (name_ne_nil : name ≠ []) :
    ToolCall.make id name pairs = .ok call ↔
      finitePairs pairs = true ∧ call.id = id ∧ call.name = name ∧ call.arguments = pairs := by
  rw [ToolCall.make, dif_pos ⟨id_ne_nil, name_ne_nil⟩]
  split
  · rename_i fine
    cases call
    simp [fine, eq_comm]
  · rename_i infinite
    simp [infinite]

theorem decodeArguments_eq_ok {text : PyStr} :
    decodeArguments py text = .ok pairs ↔
      loads (if text = [] then lit "\x7b\x7d" else text) = some (.dict pairs) := by
  rw [decodeArguments]
  generalize loads (if text = [] then lit "\x7b\x7d" else text) = read
  cases read with
  | none => simp
  | some value => cases value <;> simp

theorem toolCallOf_eq_ok (shown : Shows rawCall id name text) :
    toolCallOf py rawCall = .ok call ↔ call.id = id ∧ call.name = name ∧
      loads (if text = [] then lit "\x7b\x7d" else text) = some (.dict call.arguments) := by
  rw [toolCallOf_shows shown, bind_eq_ok]
  simp only [decodeArguments_eq_ok, make_eq_ok shown.id_ne_nil shown.name_ne_nil]
  constructor
  · rintro ⟨pairs, read, _, sameId, sameName, rfl⟩
    exact ⟨sameId, sameName, read⟩
  · rintro ⟨sameId, sameName, read⟩
    exact ⟨call.arguments, read, call.finite_arguments, sameId, sameName, rfl⟩

theorem loads_braces : loads (lit "\x7b\x7d") = some (.dict []) := rfl

theorem whole_cut {id name text rest : PyStr} (shown : Shows rawCall id name text)
    (denotes : Denotes (text ++ rest) (.dict pairs)) :
    Whole py rawCall ↔ text = [] ∨ Spaces rest ∧ Numbers pairs := by
  have made : ∀ {arguments}, finitePairs arguments = true →
      ∃ call : ToolCall, call.id = id ∧ call.name = name ∧ call.arguments = arguments :=
    fun fine => ⟨⟨id, name, _, shown.id_ne_nil, shown.name_ne_nil, fine⟩, rfl, rfl, rfl⟩
  by_cases empty : text = []
  · refine iff_of_true ?_ (.inl empty)
    have ⟨call, sameId, sameName, same⟩ := made (rfl : finitePairs [] = true)
    refine ⟨call, (toolCallOf_eq_ok shown).mpr ⟨sameId, sameName, ?_⟩⟩
    rw [if_pos empty, same, loads_braces]
  · constructor
    · intro ⟨call, parsed⟩
      have ⟨_, _, read⟩ := (toolCallOf_eq_ok shown).mp parsed
      rw [if_neg empty] at read
      have ⟨same, spaces, few⟩ := (PyJson.loads_cut denotes).mp read
      exact .inr ⟨spaces, few, same ▸ call.finite_arguments⟩
    · rintro (none | ⟨spaces, few, fine⟩)
      · exact absurd none empty
      · have ⟨call, sameId, sameName, same⟩ := made fine
        refine ⟨call, (toolCallOf_eq_ok shown).mpr ⟨sameId, sameName, ?_⟩⟩
        rw [if_neg empty, same]
        exact (PyJson.loads_cut denotes).mpr ⟨rfl, spaces, few⟩

theorem denotes_ne_nil {text : PyStr} (denotes : Denotes text (.dict pairs)) : text ≠ [] := by
  rintro rfl
  have read : loadsWithin (PyJson.mostDigits (.dict pairs)) [] = some (.dict pairs) :=
    PyJson.loads_of_denotes denotes (PyJson.all_fits _ (Nat.le_refl _))
  exact nomatch read

theorem decoded_iff (shown : Shows rawCall id name text) (denotes : Denotes text (.dict pairs)) :
    (∃ call, toolCallOf py rawCall = .ok call ∧ call.arguments = pairs) ↔ Numbers pairs := by
  have some := denotes_ne_nil denotes
  constructor
  · rintro ⟨call, parsed, rfl⟩
    have ⟨_, _, read⟩ := (toolCallOf_eq_ok shown).mp parsed
    rw [if_neg some] at read
    have ⟨_, few⟩ := (PyJson.loads_eq_some_iff denotes).mp read
    rw [PyJson.all] at few
    exact ⟨few, call.finite_arguments⟩
  · intro ⟨few, fine⟩
    refine ⟨⟨id, name, pairs, shown.id_ne_nil, shown.name_ne_nil, fine⟩, ?_, rfl⟩
    refine (toolCallOf_eq_ok shown).mpr ⟨rfl, rfl, ?_⟩
    rw [if_neg some]
    exact (PyJson.loads_eq_some_iff denotes).mpr ⟨rfl, by rwa [PyJson.all]⟩

variable {reasoning : Option PyStr} {outputLimited : Bool} {content : PyStr}

theorem parse_eq_error {error : ReplyError}
    (failed : parseCompleteToolCall py outputLimited content reasoning rawCall = .error error) :
    error.isMalformed = true := by
  rw [parseCompleteToolCall] at failed
  cases parsed : toolCallOf py rawCall with
  | ok call =>
    rw [parsed] at failed
    exact nomatch failed
  | error detail =>
    rw [parsed] at failed
    rw [← Except.error.inj failed]
    rfl

theorem parse_eq_ok :
    parseCompleteToolCall py outputLimited content reasoning rawCall = .ok call ↔
      toolCallOf py rawCall = .ok call := mapError_eq_ok

theorem mapM_parse (py : Builtins) (outputLimited : Bool) (content : PyStr)
    (reasoning : Option PyStr) (rawCalls : List PyJson) :
    (∃ calls, rawCalls.mapM (parseCompleteToolCall py outputLimited content reasoning) = .ok calls ∧
        ∀ rawCall ∈ rawCalls, Whole py rawCall) ∨
      ∃ error, rawCalls.mapM (parseCompleteToolCall py outputLimited content reasoning) =
        .error error ∧ error.isMalformed = true ∧ ∃ rawCall ∈ rawCalls, ¬ Whole py rawCall := by
  cases parsed : rawCalls.mapM (parseCompleteToolCall py outputLimited content reasoning) with
  | ok calls =>
    refine .inl ⟨calls, rfl, fun rawCall member => ?_⟩
    have ⟨call, each⟩ := mapM_isOk.mp ⟨calls, parsed⟩ rawCall member
    exact ⟨call, parse_eq_ok.mp each⟩
  | error error =>
    have ⟨rawCall, member, failed⟩ := mapM_eq_error parsed
    refine .inr ⟨error, rfl, parse_eq_error failed, rawCall, member, fun ⟨call, whole⟩ => ?_⟩
    rw [parse_eq_ok.mpr whole] at failed
    exact nomatch failed

/-- A result that is no malformed call. -/
def Unmalformed {α : Type} (result : Except ReplyError α) : Prop :=
  ∀ error, result = .error error → error.isMalformed = false

theorem make_unmalformed (content : PyStr) (calls : List ToolCall) (model : PyStr)
    (usage : List (PyStr × PyJson)) (reasoning : Option PyStr) :
    Unmalformed (ProviderResponse.make content calls model usage reasoning) := by
  intro error failed
  rw [ProviderResponse.make] at failed
  split at failed
  · split at failed
    · exact nomatch failed
    · rw [← Except.error.inj failed]
      rfl
  · rw [← Except.error.inj failed]
    rfl

/-- A reply is rejected as a malformed tool call. -/
def Malformed (result : Except ReplyError ProviderResponse) : Prop :=
  ∃ error, result = .error error ∧ error.isMalformed = true

variable {rest : List ToolCall → Except ReplyError ProviderResponse}

theorem malformed_bind {rawCalls : List PyJson} (fine : ∀ calls, Unmalformed (rest calls)) :
    Malformed (rawCalls.mapM (parseCompleteToolCall py outputLimited content reasoning) >>= rest) ↔
      ∃ rawCall ∈ rawCalls, ¬ Whole py rawCall := by
  rcases mapM_parse py outputLimited content reasoning rawCalls with
    ⟨calls, parsed, whole⟩ | ⟨error, failed, malformed, bad⟩
  · rw [parsed]
    refine iff_of_false ?_ fun ⟨rawCall, member, broken⟩ => broken (whole rawCall member)
    intro ⟨error, failed, malformed⟩
    rw [fine calls error failed] at malformed
    exact nomatch malformed
  · rw [failed]
    exact iff_of_true ⟨error, rfl, malformed⟩ bad

theorem malformed_bind_map {α : Type} {items : List α} {raw : α → PyJson}
    (fine : ∀ calls, Unmalformed (rest calls)) :
    Malformed ((items.mapM fun item =>
        parseCompleteToolCall py outputLimited content reasoning (raw item)) >>= rest) ↔
      ∃ rawCall ∈ items.map raw, ¬ Whole py rawCall := by
  have whole : Malformed ((items.map raw).mapM
      (parseCompleteToolCall py outputLimited content reasoning) >>= rest) ↔ _ := malformed_bind fine
  rw [List.mapM_map] at whole
  exact whole

/-- The parsers: of a whole chat reply, of a chat stream, of a whole response and of a response's
events. -/
inductive Parser where
  | plain
  | streamed
  | responses
  | responsesStreamed

def Parser.parse (py : Builtins) : Parser → Bytes → PyStr → Except ReplyError ProviderResponse
  | plain => parseResponse py
  | streamed => parseStreamResponse py
  | responses => parseResponses py
  | responsesStreamed => parseResponsesStream py

/-- The raw call that an item or a record of the responses dialect makes. -/
def responsesCall (callId name arguments : PyJson) : PyJson :=
  .dict [(lit "id", callId), (lit "function", .dict [(lit "name", name), (lit "arguments", arguments)])]

/-- An item that is read, whatever has been read before. -/
def Fine (py : Builtins) (item : PyJson) : Prop :=
  ∀ state, ∃ next, feedItem py true state item = .ok next

/-- A response that stopped at the output limit carries a call: the other items are read. -/
structure ResponseCarries (py : Builtins) (decoded rawCall : PyJson) : Prop where
  unfailed : responsesFailure py decoded = none
  limited : isReason (incompleteReason decoded) (lit "max_output_tokens") = true
  output : ∃ before item after, get? (lit "output") decoded = some (.list (before ++ item :: after)) ∧
    item.isDict = true ∧ get? (lit "type") item = some (.str (lit "function_call")) ∧
    rawCall = responsesCall (getOrNull "call_id" item) (getOrNull "name" item)
      (getOrNull "arguments" item) ∧
    ∀ other ∈ before ++ after, Fine py other

/-- A reply that stopped at the output limit carries a call among others that parse. -/
inductive Carries (py : Builtins) (model : PyStr) : Parser → Bytes → PyJson → Prop where
  | plain {raw : Bytes} {payload choice message : PyJson} {before after : List PyJson}
      {rawCall : PyJson} {reasoning : Bool × Option PyStr} (reads : loadsBytes raw = some payload)
      (first : firstMessage payload = some (choice, message))
      (limited : isLength (get? (lit "finish_reason") choice) = true)
      (calls : rawCallsOf message = .ok (before ++ rawCall :: after))
      (reasons : parseReasoning message = .ok reasoning)
      (others : ∀ other ∈ before ++ after, Whole py other) : Carries py model .plain raw rawCall
  | body {raw : Bytes} {rawCall : PyJson} (isBody : isBody raw = true)
      (carries : Carries py model .plain raw rawCall) : Carries py model .streamed raw rawCall
  | streamed {raw : Bytes} {t : Text} {state : StreamState} {before after : List PyJson}
      {rawCall : PyJson} (isStream : isBody raw = false) (text : CodePoint.decode raw = some t)
      (feeds : feedLines py (.start model) (splitLines t) = .ok state)
      (limited : isLength state.finishReason = true)
      (calls : state.tools.map (·.2.raw) = before ++ rawCall :: after)
      (others : ∀ other ∈ before ++ after, Whole py other) : Carries py model .streamed raw rawCall
  | responses {raw : Bytes} {pairs : List (PyStr × PyJson)} {rawCall : PyJson}
      (reads : loadsBytes raw = some (.dict pairs))
      (carries : ResponseCarries py (.dict pairs) rawCall) : Carries py model .responses raw rawCall
  | responsesBody {raw : Bytes} {rawCall : PyJson} (isBody : isBody raw = true)
      (carries : Carries py model .responses raw rawCall) :
      Carries py model .responsesStreamed raw rawCall
  | terminal {raw : Bytes} {t : Text} {state : EventState} {terminal rawCall : PyJson}
      (isStream : isBody raw = false) (text : CodePoint.decode raw = some t)
      (feeds : feedEvents py .start (splitLines t) = .ok state) (unrefused : state.refusal = none)
      (ended : state.terminal = some terminal) (bare : state.content = none ∧ state.calls = [])
      (carries : ResponseCarries py terminal rawCall) : Carries py model .responsesStreamed raw rawCall
  | responsesStreamed {raw : Bytes} {t : Text} {state : EventState} {terminal : PyJson}
      {before after : List PyJson} {rawCall : PyJson} (isStream : isBody raw = false)
      (text : CodePoint.decode raw = some t)
      (feeds : feedEvents py .start (splitLines t) = .ok state) (unrefused : state.refusal = none)
      (ended : state.terminal = some terminal) (unfailed : responsesFailure py terminal = none)
      (limited : isReason (incompleteReason terminal) (lit "max_output_tokens") = true)
      (calls : (state.calls.map fun call => responsesCall (.str call.2.id) (.str call.2.name)
        (.str call.2.arguments)) = before ++ rawCall :: after)
      (others : ∀ other ∈ before ++ after, Whole py other) :
      Carries py model .responsesStreamed raw rawCall

variable {before after : List PyJson}

theorem exists_not_whole (others : ∀ other ∈ before ++ after, Whole py other) :
    (∃ call ∈ before ++ rawCall :: after, ¬ Whole py call) ↔ ¬ Whole py rawCall := by
  constructor
  · intro ⟨call, member, broken⟩
    rw [List.mem_append, List.mem_cons] at member
    rcases member with left | rfl | right
    · exact absurd (others call (List.mem_append_left _ left)) broken
    · exact broken
    · exact absurd (others call (List.mem_append_right _ right)) broken
  · intro broken
    exact ⟨rawCall, by simp, broken⟩

variable {reason : Option PyJson}

theorem not_contentFilter (limited : isLength reason = true) : isContentFilter reason = false := by
  cases reason with
  | none => rfl
  | some value =>
    cases value with
    | str text =>
      rw [isLength, decide_eq_true_eq] at limited
      rw [limited]
      rfl
    | _ => rfl

theorem content_unmalformed (message : PyJson) (calls : List ToolCall)
    (reasoning : Bool × Option PyStr) : Unmalformed (contentOf message calls reasoning) := by
  intro error failed
  rw [contentOf] at failed
  split at failed
  · split at failed
    · rw [← Except.error.inj failed]
      rfl
    · exact nomatch failed
  · exact nomatch failed
  · exact nomatch failed
  · rw [← Except.error.inj failed]
    rfl

theorem Unmalformed.bind {α β : Type} {x : Except ReplyError α} {f : α → Except ReplyError β}
    (first : Unmalformed x) (later : ∀ a, Unmalformed (f a)) : Unmalformed (x >>= f) := by
  intro error failed
  cases x with
  | ok a => exact later a error failed
  | error e =>
    rw [← Except.error.inj failed]
    exact first e rfl

theorem parsePayload_malformed {payload choice message : PyJson} {reasoning : Bool × Option PyStr}
    (model : PyStr) (first : firstMessage payload = some (choice, message))
    (limited : isLength (get? (lit "finish_reason") choice) = true)
    (calls : rawCallsOf message = .ok (before ++ rawCall :: after))
    (reasons : parseReasoning message = .ok reasoning)
    (others : ∀ other ∈ before ++ after, Whole py other) :
    Malformed (parsePayload py payload model) ↔ ¬ Whole py rawCall := by
  rw [← exists_not_whole others, parsePayload]
  simp only [first, not_contentFilter limited, calls, reasons]
  refine malformed_bind fun calls => ?_
  exact (content_unmalformed _ _ _).bind fun _ => make_unmalformed _ _ _ _ _

theorem conclude_malformed {state : StreamState} (limited : isLength state.finishReason = true)
    (calls : state.tools.map (·.2.raw) = before ++ rawCall :: after)
    (others : ∀ other ∈ before ++ after, Whole py other) :
    Malformed (conclude py state) ↔ ¬ Whole py rawCall := by
  have finished : state.finishReason.isNone = false := by
    cases reason : state.finishReason with
    | none =>
      rw [reason] at limited
      exact nomatch limited
    | some value => rfl
  rw [← exists_not_whole others, ← calls, conclude]
  simp only [finished, not_contentFilter limited, Bool.false_eq_true, if_false]
  exact malformed_bind_map fun _ => make_unmalformed _ _ _ _ _

theorem feedItem_call {item : PyJson} (isItem : item.isDict = true)
    (isCall : get? (lit "type") item = some (.str (lit "function_call")))
    (state : PyStr × List ToolCall) :
    feedItem py true state item =
      (parseCompleteToolCall py true state.1 none (responsesCall (getOrNull "call_id" item)
        (getOrNull "name" item) (getOrNull "arguments" item))).map
          fun call => (state.1, state.2 ++ [call]) := by
  have other : isReason (some (.str (lit "function_call"))) (lit "message") = false := rfl
  have same : isReason (some (.str (lit "function_call"))) (lit "function_call") = true := rfl
  rw [feedItem, isCall, isItem, other, same]
  simp only [Bool.not_true, Bool.false_eq_true, if_false, if_true]
  rw [toolCallFromItem, ← responsesCall]
  cases parseCompleteToolCall py true state.1 none (responsesCall (getOrNull "call_id" item)
    (getOrNull "name" item) (getOrNull "arguments" item)) with
  | error error => rfl
  | ok call => rfl

theorem foldlM_fine {items : List PyJson} (fine : ∀ item ∈ items, Fine py item)
    (state : PyStr × List ToolCall) : ∃ next, items.foldlM (feedItem py true) state = .ok next := by
  induction items generalizing state with
  | nil => exact ⟨state, rfl⟩
  | cons item items ih =>
    have ⟨middle, first⟩ := fine item List.mem_cons_self state
    have ⟨next, later⟩ := ih (fun item member => fine item (List.mem_cons_of_mem _ member)) middle
    exact ⟨next, foldlM_cons_eq_ok.mpr ⟨middle, first, later⟩⟩

theorem isReason_ne {name other : PyStr} (is : isReason reason name = true)
    (differ : name ≠ other) : isReason reason other = false := by
  cases reason with
  | none => rfl
  | some value =>
    cases value with
    | str text =>
      rw [isReason, decide_eq_true_eq] at is
      rw [is]
      exact decide_eq_false differ
    | _ => rfl

theorem limit_ne_filter : lit "max_output_tokens" ≠ lit "content_filter" := by decide

theorem response_malformed {decoded rawCall : PyJson} (model : PyStr)
    (carries : ResponseCarries py decoded rawCall) :
    Malformed (responsesProviderResponse py decoded model) ↔ ¬ Whole py rawCall := by
  have ⟨unfailed, limited, before, item, after, output, isItem, isCall, same, others⟩ := carries
  have ⟨state, first⟩ := foldlM_fine (fun other member =>
    others other (List.mem_append_left _ member)) ([], [])
  have read : feedItem py true state item = _ := feedItem_call isItem isCall state
  rw [← same] at read
  have uncut := isReason_ne limited limit_ne_filter
  rw [responsesProviderResponse]
  simp only [unfailed, output, limited, uncut, Bool.false_eq_true, if_false]
  cases parsed : toolCallOf py rawCall with
  | error detail =>
    have failed : ∃ error, parseCompleteToolCall py true state.1 none rawCall = .error error := by
      rw [parseCompleteToolCall, parsed]
      exact ⟨_, rfl⟩
    have ⟨error, stops⟩ := failed
    have whole : (before ++ item :: after).foldlM (feedItem py true) ([], []) = .error error := by
      rw [List.foldlM_append, first]
      change (item :: after).foldlM (feedItem py true) state = _
      rw [List.foldlM_cons, read, stops]
      rfl
    rw [whole]
    refine iff_of_true ⟨error, rfl, parse_eq_error stops⟩ fun ⟨call, parses⟩ => ?_
    rw [parsed] at parses
    exact nomatch parses
  | ok call =>
    have ⟨next, later⟩ := foldlM_fine (fun other member =>
      others other (List.mem_append_right _ member)) (state.1, state.2 ++ [call])
    have whole : (before ++ item :: after).foldlM (feedItem py true) ([], []) = .ok next := by
      refine foldlM_append_eq_ok.mpr ⟨state, first, foldlM_cons_eq_ok.mpr ⟨_, ?_, later⟩⟩
      rw [read, parse_eq_ok.mpr parsed]
      rfl
    rw [whole]
    refine iff_of_false ?_ fun broken => broken ⟨call, parsed⟩
    intro ⟨error, failed, malformed⟩
    rw [make_unmalformed _ _ _ _ _ error failed] at malformed
    exact nomatch malformed

theorem concludeEvents_malformed {state : EventState} {terminal : PyJson} (model : PyStr)
    (unrefused : state.refusal = none) (ended : state.terminal = some terminal)
    (unfailed : responsesFailure py terminal = none)
    (limited : isReason (incompleteReason terminal) (lit "max_output_tokens") = true)
    (calls : (state.calls.map fun call => responsesCall (.str call.2.id) (.str call.2.name)
      (.str call.2.arguments)) = before ++ rawCall :: after)
    (others : ∀ other ∈ before ++ after, Whole py other) :
    Malformed (concludeEvents py state model) ↔ ¬ Whole py rawCall := by
  have some : state.calls.isEmpty = false := by
    cases none : state.calls with
    | nil =>
      rw [none] at calls
      simp at calls
    | cons call rest => rfl
  have uncut := isReason_ne limited limit_ne_filter
  rw [← exists_not_whole others, ← calls, concludeEvents]
  simp only [unrefused, ended, unfailed, limited, uncut, some, Bool.and_false, Bool.false_eq_true,
    if_false]
  exact malformed_bind_map fun _ => make_unmalformed _ _ _ _ _

theorem concludeEvents_bare {state : EventState} {terminal : PyJson} (model : PyStr)
    (unrefused : state.refusal = none) (ended : state.terminal = some terminal)
    (bare : state.content = none ∧ state.calls = []) :
    concludeEvents py state model = responsesProviderResponse py terminal model := by
  have ⟨content, calls⟩ := bare
  rw [concludeEvents]
  simp [unrefused, ended, content, calls]

theorem malformed_iff {model : PyStr} {parser : Parser} {raw : Bytes}
    (carries : Carries py model parser raw rawCall) :
    Malformed (parser.parse py raw model) ↔ ¬ Whole py rawCall := by
  induction carries with
  | plain reads first limited calls reasons others =>
    rw [Parser.parse, parseResponse, reads]
    exact parsePayload_malformed model first limited calls reasons others
  | body isBody _ ih =>
    rw [Parser.parse, parseStreamResponse, if_pos isBody]
    exact ih
  | streamed isStream text feeds limited calls others =>
    rw [Parser.parse, parseStreamResponse, if_neg (by simp [isStream]), text]
    simp only [feeds]
    exact conclude_malformed limited calls others
  | responses reads carries =>
    rw [Parser.parse, parseResponses, reads]
    exact response_malformed model carries
  | responsesBody isBody _ ih =>
    rw [Parser.parse, parseResponsesStream, if_pos isBody]
    exact ih
  | terminal isStream text feeds unrefused ended bare carries =>
    rw [Parser.parse, parseResponsesStream, if_neg (by simp [isStream]), text]
    simp only [feeds]
    rw [← response_malformed model carries, ← concludeEvents_bare model unrefused ended bare]
    rfl
  | responsesStreamed isStream text feeds unrefused ended unfailed limited calls others =>
    rw [Parser.parse, parseResponsesStream, if_neg (by simp [isStream]), text]
    simp only [feeds]
    exact concludeEvents_malformed model unrefused ended unfailed limited calls others

/-- The text of a chat reply at the output limit whose call has these arguments. -/
def limitedReply (text : Text) : Text :=
  "\x7b\"choices\":[\x7b\"finish_reason\":\"length\",\"message\":\x7b\"tool_calls\":[".toList ++
    "\x7b\"id\":\"c1\",\"function\":\x7b\"name\":\"write\",\"arguments\":\"".toList ++ text ++
    "\"\x7d\x7d]\x7d\x7d]\x7d".toList

/-- Its call. -/
def limitedCall (text : PyStr) : PyJson :=
  .dict [(lit "id", .str (lit "c1")),
    (lit "function", .dict [(lit "name", .str (lit "write")), (lit "arguments", .str text)])]

def limitedPayload (text : PyStr) : PyJson :=
  .dict [(lit "choices", .list [.dict [(lit "finish_reason", .str (lit "length")),
    (lit "message", .dict [(lit "tool_calls", .list [limitedCall text])])]])]

theorem shows_limitedCall (text : PyStr) : Shows (limitedCall text) (lit "c1") (lit "write") text where
  isCall := rfl
  hasId := rfl
  hasFunction := ⟨_, rfl, rfl, rfl, rfl⟩
  id_ne_nil := by decide
  name_ne_nil := by decide

theorem loadsBytes_encode (t : Text) : loadsBytes (Utf8.encode t) = loads (ofText t) := by
  rw [loadsBytes, CodePoint.decode_eq_some.mpr rfl]
  rfl

theorem carries_limitedCall {text : Text} {value : PyStr}
    (reads : loads (ofText (limitedReply text)) = some (limitedPayload value)) (model : PyStr) :
    Carries py model .plain (Utf8.encode (limitedReply text)) (limitedCall value) := by
  have calls : rawCallsOf (.dict [(lit "tool_calls", .list [limitedCall value])]) =
      .ok ([] ++ limitedCall value :: []) := rfl
  exact .plain ((loadsBytes_encode _).trans reads) rfl rfl calls rfl nofun

theorem denotes_object : Denotes (lit "\x7b\"a\":true\x7d") (.dict [(lit "a", .bool true)]) := by
  have none : Spaces [] := nofun
  have name : PyJson.SpellsString (lit "\"a\"") (lit "a") :=
    ⟨lit "a", [.inl (.char 'a')], .raw ⟨by decide, by decide, by decide⟩ .nil, rfl, rfl⟩
  refine ⟨[], lit "\x7b\"a\":true\x7d", [], none, ?_, none, rfl⟩
  exact .dict (.one none name none none .true' none)

/-- Nothing of what a parser is given is shown in an error. -/
def silent : Builtins := ⟨fun _ => [], fun _ => []⟩

end AutoTrade.Llm
