import AutoTrade.Agent.Compact

/-!
# The loop that fits a compaction request ends

A summary holds the first and the last 500 characters of a result, none of them written shorter than
it is, so no result of up to 1000 characters is ever shortened; a longer one is replaced only by a
shorter one. So the characters of the messages are a measure of the loop.
-/

namespace AutoTrade.Compact

open PyValue (lit)
open PyJson (writeString escapePoint)

attribute [local simp] dumps dumpsPairs

variable {floatRepr : Text → Option Text}

theorem le_length_writeString (text : PyStr) : text.length ≤ (writeString text).length := by
  have each : ∀ point, 1 ≤ (escapePoint point).length := by
    intro point
    unfold escapePoint
    split <;> first | (split <;> simp) | simp
  have body : text.length ≤ (text.flatMap escapePoint).length := by
    induction text with
    | nil => simp
    | cons point text ih =>
      have one := each point
      simp only [List.flatMap_cons, List.length_append, List.length_cons]
      omega
  simp only [writeString, List.length_cons, List.length_append]
  omega

theorem length_intercalate (separator : PyStr) (parts : List PyStr) :
    (separator.intercalate parts).length =
      (parts.map List.length).sum + separator.length * (parts.length - 1) := by
  induction parts with
  | nil => simp
  | cons part parts ih =>
    cases parts with
    | nil => simp
    | cons next parts =>
      rw [List.intercalate_cons_cons, List.length_append, List.length_append, ih]
      simp only [List.map_cons, List.sum_cons, List.length_cons, Nat.add_sub_cancel, Nat.mul_succ]
      omega

theorem length_enclosed (left right : Char) (parts : List PyStr) :
    (enclosed left right parts).length =
      (parts.map List.length).sum + 2 * (parts.length - 1) + 2 := by
  simp only [enclosed, List.length_cons, List.length_append, length_intercalate, List.length_nil]
  rfl

theorem length_enclosed_append (left right : Char) (parts more : List PyStr) :
    (enclosed left right parts).length ≤ (enclosed left right (parts ++ more)).length := by
  rw [length_enclosed, length_enclosed, List.map_append, List.sum_append, List.length_append]
  omega

theorem dumps_dict (allowNan : Bool) (pairs : List (PyStr × PyJson)) :
    dumps floatRepr allowNan (.dict pairs) =
      (dumpsPairs floatRepr allowNan pairs).map (enclosed '\x7b' '\x7d') := by
  rw [dumps]

variable {allowNan : Bool} {parts : List PyStr}

theorem dumpsPairs_cons {key : PyStr} {value : PyJson} {rest : List (PyStr × PyJson)} :
    dumpsPairs floatRepr allowNan ((key, value) :: rest) = some parts ↔ ∃ part parts',
      dumps floatRepr allowNan value = some part ∧
      dumpsPairs floatRepr allowNan rest = some parts' ∧
      parts = (writeString key ++ lit ": " ++ part) :: parts' := by
  simp only [dumpsPairs, Option.bind_eq_bind, Option.bind_eq_some_iff, Option.pure_def,
    Option.some.injEq, eq_comm (b := parts)]
  constructor
  · rintro ⟨part, written, parts', rest, same⟩
    exact ⟨part, parts', written, rest, same⟩
  · rintro ⟨part, parts', written, rest, same⟩
    exact ⟨part, written, parts', rest, same⟩

theorem dumpsPairs_append {pairs more : List (PyStr × PyJson)}
    (written : dumpsPairs floatRepr allowNan (pairs ++ more) = some parts) :
    ∃ before after, dumpsPairs floatRepr allowNan pairs = some before ∧ parts = before ++ after := by
  induction pairs generalizing parts with
  | nil => exact ⟨[], parts, by rw [dumpsPairs], rfl⟩
  | cons pair pairs ih =>
    have ⟨part, rest, here, later, same⟩ := dumpsPairs_cons.mp written
    have ⟨before, after, first, split⟩ := ih later
    refine ⟨_, after, dumpsPairs_cons.mpr ⟨part, before, here, first, rfl⟩, ?_⟩
    rw [same, split, List.cons_append]

/-- The characters of a string. -/
def stringChars : PyJson → Nat
  | .str text => text.length
  | _ => 0

theorem stringChars_le {value : PyJson} {part : PyStr}
    (written : dumps floatRepr allowNan value = some part) : stringChars value ≤ part.length := by
  cases value with
  | str text =>
    rw [dumps] at written
    rw [← Option.some.inj written]
    exact le_length_writeString text
  | _ => exact Nat.zero_le _

theorem sum_stringChars_le {pairs : List (PyStr × PyJson)}
    (written : dumpsPairs floatRepr allowNan pairs = some parts) :
    (pairs.map fun pair => stringChars pair.2).sum ≤ (parts.map List.length).sum := by
  induction pairs generalizing parts with
  | nil => exact Nat.zero_le _
  | cons pair pairs ih =>
    have ⟨part, rest, here, later, same⟩ := dumpsPairs_cons.mp written
    have value := stringChars_le here
    have others := ih later
    rw [same]
    simp only [List.map_cons, List.sum_cons, List.length_append]
    omega

theorem length_add_le_sum (first rest : List (PyStr × PyJson)) (key key' head tail : PyStr) :
    head.length + tail.length ≤
      ((first ++ [(key, PyJson.str head), (key', PyJson.str tail)] ++ rest).map
        fun pair => stringChars pair.2).sum := by
  simp only [List.map_append, List.sum_append, List.map_cons, List.map_nil, List.sum_cons,
    List.sum_nil, stringChars]
  omega

variable {message replacement : ChatMessage} {spill : Option Spill}

theorem summarize_eq_ok :
    summarizeToolResultForContext floatRepr message spill = .ok replacement ↔
      ∃ tool retained parts, retainedToolFields floatRepr message.text = .ok retained ∧
        dumpsPairs floatRepr false (summaryPayload message.text retained ++
          (spill.map Spill.fields).getD []) = some parts ∧
        replacement = message.answer tool (enclosed '\x7b' '\x7d' parts) := by
  unfold summarizeToolResultForContext
  split
  · rename_i tool
    refine bind_eq_ok.trans ⟨?_, ?_⟩
    · rintro ⟨retained, fields, written⟩
      simp only [dumps_dict] at written
      cases parts : dumpsPairs floatRepr false (summaryPayload message.text retained ++
          (spill.map Spill.fields).getD []) with
      | none =>
        rw [parts] at written
        exact nomatch written
      | some parts' =>
        rw [parts] at written
        exact ⟨tool, retained, parts', fields, parts, (Except.ok.inj written).symm⟩
    · rintro ⟨_, retained, parts, fields, written, rfl⟩
      refine ⟨retained, fields, ?_⟩
      simp only [dumps_dict]
      rw [written]
      rfl
  · rename_i other
    exact ⟨nofun, fun ⟨tool, _⟩ => absurd tool other⟩

theorem chars_answer {tool : message.role = .tool} {content : PyStr} :
    (message.answer tool content).chars = content.length := rfl

theorem summarize_plain
    (ok : summarizeToolResultForContext floatRepr message spill = .ok replacement) :
    ∃ plain, summarizeToolResultForContext floatRepr message none = .ok plain ∧
      plain.chars ≤ replacement.chars := by
  have ⟨tool, retained, parts, fields, written, same⟩ := summarize_eq_ok.mp ok
  have ⟨before, after, plain, split⟩ := dumpsPairs_append written
  refine ⟨message.answer tool (enclosed '\x7b' '\x7d' before),
    summarize_eq_ok.mpr ⟨tool, retained, before, fields, ?_, rfl⟩, ?_⟩
  · rw [Option.map_none, Option.getD_none, List.append_nil]
    exact plain
  · rw [same, chars_answer, chars_answer, split]
    exact length_enclosed_append _ _ _ _

theorem chars_le_of_brief (brief : message.chars ≤ 2 * toolContextExcerptChars)
    (ok : summarizeToolResultForContext floatRepr message spill = .ok replacement) :
    message.chars ≤ replacement.chars := by
  have ⟨tool, retained, parts, _, written, same⟩ := summarize_eq_ok.mp ok
  have excerpts : (message.text.take toolContextExcerptChars).length +
      (message.text.drop (message.text.length - toolContextExcerptChars)).length ≤
      ((summaryPayload message.text retained ++ (spill.map Spill.fields).getD []).map
        fun pair => stringChars pair.2).sum := by
    rw [summaryPayload, List.append_assoc]
    exact length_add_le_sum [_, _, _, _] _ _ _ _ _
  have held := excerpts.trans (sum_stringChars_le written)
  rw [same, chars_answer, length_enclosed]
  rw [List.length_take, List.length_drop] at held
  have size : message.chars = message.text.length := rfl
  omega

/-- One tool result is replaced by another that is shorter by so many characters. -/
def Shortens (freed : Nat) (before after : List ChatMessage) : Prop :=
  ∃ index message replacement, before[index]? = some message ∧
    after = before.set index replacement ∧ message.role = .tool ∧
    replacement.role = message.role ∧ replacement.toolCallId = message.toolCallId ∧
    0 < freed ∧ replacement.chars + freed = message.chars

/-- So many edits, which free so many characters. -/
inductive Edits (start : List ChatMessage) : Nat → Nat → List ChatMessage → Prop where
  | none : Edits start 0 0 start
  | more {n freed freed' : Nat} {mid after : List ChatMessage} (earlier : Edits start n freed mid)
      (shortens : Shortens freed' mid after) : Edits start (n + 1) (freed + freed') after

/-- What the protocol of tool calls binds. -/
def ChatMessage.protocol (message : ChatMessage) : Role × Option PyStr :=
  (message.role, message.toolCallId)

def totalChars (messages : List ChatMessage) : Nat := (messages.map ChatMessage.chars).sum

variable {start mid after messages : List ChatMessage} {n n' freed freed' : Nat}

theorem Shortens.total (shortens : Shortens freed mid after) :
    totalChars after + freed = totalChars mid := by
  obtain ⟨index, message, replacement, there, rfl, -, -, -, -, shorter⟩ := shortens
  have ⟨inside, here⟩ := List.getElem?_eq_some_iff.mp there
  have split : mid = mid.take index ++ message :: mid.drop (index + 1) := by
    rw [← here, List.cons_getElem_drop_succ, List.take_append_drop]
  have split' : mid.set index replacement =
      mid.take index ++ replacement :: mid.drop (index + 1) := List.set_eq_take_append_cons_drop.trans
    (if_pos inside)
  rw [split', totalChars, totalChars]
  conv_rhs => rw [split]
  simp only [List.map_append, List.map_cons, List.sum_append, List.sum_cons]
  omega

theorem Shortens.protocol (shortens : Shortens freed mid after) :
    after.map ChatMessage.protocol = mid.map ChatMessage.protocol := by
  obtain ⟨index, message, replacement, there, rfl, -, role, id, -⟩ := shortens
  have same : replacement.protocol = message.protocol := Prod.ext role id
  refine List.ext_getElem? fun i => ?_
  rw [List.map_set, List.getElem?_set, List.length_map, List.getElem?_map, same]
  split
  · rename_i here
    have ⟨inside, _⟩ := List.getElem?_eq_some_iff.mp there
    rw [if_pos inside, ← here, there, Option.map_some]
  · rfl

theorem Edits.total (edits : Edits start n freed after) :
    totalChars after + freed = totalChars start := by
  induction edits with
  | none => rfl
  | more _ shortens ih =>
    have total := shortens.total
    omega

theorem Edits.protocol (edits : Edits start n freed after) :
    after.map ChatMessage.protocol = start.map ChatMessage.protocol := by
  induction edits with
  | none => rfl
  | more _ shortens ih => exact shortens.protocol.trans ih

theorem Edits.le_freed (edits : Edits start n freed after) : n ≤ freed := by
  induction edits with
  | none => exact Nat.le_refl 0
  | more _ shortens ih =>
    obtain ⟨-, -, -, -, -, -, -, -, positive, -⟩ := shortens
    omega

theorem Edits.trans (first : Edits start n freed mid) (later : Edits mid n' freed' after) :
    Edits start (n + n') (freed + freed') after := by
  induction later with
  | none => exact first
  | more _ shortens ih =>
    rw [← Nat.add_assoc, ← Nat.add_assoc]
    exact ih.more shortens

/-- No summary of a message is shorter than it is. -/
def Exhausted (floatRepr : Text → Option Text) (message : ChatMessage) : Prop :=
  ∀ spill replacement, summarizeToolResultForContext floatRepr message spill = .ok replacement →
    message.chars ≤ replacement.chars

theorem exhausted_of_plain
    (ok : summarizeToolResultForContext floatRepr message none = .ok replacement)
    (long : message.chars ≤ replacement.chars) : Exhausted floatRepr message := by
  intro spill replacement' ok'
  have ⟨plain, ok'', shorter⟩ := summarize_plain ok'
  cases ok.symm.trans ok''
  exact long.trans shorter

theorem mem_candidates {index : Nat} (there : messages[index]? = some message)
    (tool : message.role = .tool) (size : toolContextMinChars ≤ message.chars) :
    (message.chars, index) ∈ candidates messages := by
  rw [candidates, (List.perm_insertionSort _ _).mem_iff]
  refine List.mem_map.mpr ⟨(message, index), List.mem_filter.mpr ⟨?_, ?_⟩, rfl⟩
  · exact List.mem_zipIdx_iff_getElem?.mpr there
  · simp [tool, size]

variable {σ : Type} {around : Surroundings σ} {maxTokens : Nat} {fitting fitting' : Fitting σ}

theorem replacementFor_eq_ok {original plain : ChatMessage} {store store' : σ}
    (ok : summarizeToolResultForContext floatRepr original none = .ok plain)
    (shorter : plain.chars < original.chars)
    (replaced : replacementFor floatRepr around original plain store = .ok (replacement, store')) :
    replacement.chars < original.chars ∧
      ∃ spill, summarizeToolResultForContext floatRepr original spill = .ok replacement := by
  unfold replacementFor at replaced
  split at replaced
  · cases replaced
    exact ⟨shorter, none, ok⟩
  · have ⟨spilled, ok', taken⟩ := bind_eq_ok.mp replaced
    cases taken
    split
    · rename_i still
      exact ⟨still, _, ok'⟩
    · exact ⟨shorter, none, ok⟩

theorem fitCandidate_eq_ok {index : Nat}
    (ok : fitCandidate floatRepr around maxTokens index fitting = .ok fitting') :
    (fitting' = fitting ∧ ∀ original, fitting.edited[index]? = some original →
      Exhausted floatRepr original) ∨
    ∃ freed, Shortens freed fitting.edited fitting'.edited ∧
      fitting'.summarized = fitting.summarized + 1 ∧
      fitting'.charsFreed = fitting.charsFreed + freed := by
  unfold fitCandidate at ok
  split at ok
  · rename_i nothing
    exact .inl ⟨(Except.ok.inj ok).symm, fun original there => nomatch nothing.symm.trans there⟩
  · rename_i original there
    have ⟨plain, summarized, rest⟩ := bind_eq_ok.mp ok
    split at rest
    · rename_i long
      refine .inl ⟨(Except.ok.inj rest).symm, fun original' there' => ?_⟩
      cases there.symm.trans there'
      exact exhausted_of_plain summarized long
    · rename_i short
      have ⟨⟨replacement, store⟩, replaced, rest⟩ := bind_eq_ok.mp rest
      have ⟨report, _, last⟩ := bind_eq_ok.mp rest
      cases last
      have ⟨shorter, spill, ok'⟩ :=
        replacementFor_eq_ok summarized (Nat.not_le.mp short) replaced
      have ⟨tool, _, _, _, _, same⟩ := summarize_eq_ok.mp ok'
      refine .inr ⟨original.chars - replacement.chars, ?_, rfl, rfl⟩
      refine ⟨index, original, replacement, there, rfl, tool, ?_, ?_, by omega, by omega⟩
      · rw [same, tool]
        rfl
      · rw [same]
        rfl

variable {entries : List (Nat × Nat)}

theorem fitCandidates_edits {force : Bool}
    (edits : Edits start fitting.summarized fitting.charsFreed fitting.edited)
    (ok : fitCandidates floatRepr around maxTokens force entries fitting = .ok fitting') :
    Edits start fitting'.summarized fitting'.charsFreed fitting'.edited := by
  induction entries generalizing fitting with
  | nil =>
    cases ok
    exact edits
  | cons entry entries ih =>
    rw [fitCandidates] at ok
    split at ok
    · cases ok
      exact edits
    · have ⟨next, turn, rest⟩ := bind_eq_ok.mp ok
      refine ih ?_ rest
      rcases fitCandidate_eq_ok turn with ⟨same, _⟩ | ⟨freed, shortens, count, chars⟩
      · rw [same]
        exact edits
      · rw [count, chars]
        exact edits.more shortens

theorem fitCandidates_mono {force : Bool}
    (ok : fitCandidates floatRepr around maxTokens force entries fitting = .ok fitting') :
    fitting.summarized ≤ fitting'.summarized := by
  induction entries generalizing fitting with
  | nil =>
    cases ok
    exact Nat.le_refl _
  | cons entry entries ih =>
    rw [fitCandidates] at ok
    split at ok
    · cases ok
      exact Nat.le_refl _
    · have ⟨next, turn, rest⟩ := bind_eq_ok.mp ok
      have later := ih rest
      rcases fitCandidate_eq_ok turn with ⟨same, _⟩ | ⟨_, _, count, _⟩
      · rwa [same] at later
      · omega

theorem fitCandidates_none
    (ok : fitCandidates floatRepr around maxTokens true entries fitting = .ok fitting')
    (none' : fitting'.summarized = 0) : fitting' = fitting ∧ ∀ entry ∈ entries, ∀ original,
      fitting.edited[entry.2]? = some original → Exhausted floatRepr original := by
  induction entries generalizing fitting with
  | nil => exact ⟨(Except.ok.inj ok).symm, nofun⟩
  | cons entry entries ih =>
    rw [fitCandidates] at ok
    split at ok
    · rename_i stops
      cases ok
      simp [none'] at stops
    · have ⟨next, turn, rest⟩ := bind_eq_ok.mp ok
      have ⟨last, others⟩ := ih rest
      rcases fitCandidate_eq_ok turn with ⟨rfl, here⟩ | ⟨_, _, count, _⟩
      · exact ⟨last, List.forall_mem_cons.mpr ⟨here, others⟩⟩
      · have later := fitCandidates_mono rest
        omega

variable {store store' : σ} {edit : Option ContextEdit}

/-- Nothing is left to shorten. -/
def AllExhausted (floatRepr : Text → Option Text) (messages : List ChatMessage) : Prop :=
  ∀ message ∈ messages, message.role = .tool → Exhausted floatRepr message

theorem fitToolResultsToContext_eq_ok
    (ok : fitToolResultsToContext floatRepr around maxTokens true messages store =
      .ok (after, edit, store')) :
    (edit = none ∧ after = messages ∧ AllExhausted floatRepr messages) ∨
    ∃ edit', edit = some edit' ∧ 0 < edit'.summarizedToolResults ∧
      Edits messages edit'.summarizedToolResults edit'.charsFreed after := by
  have ⟨before, _, rest⟩ := bind_eq_ok.mp ok
  have ⟨fitting, loop, last⟩ := bind_eq_ok.mp rest
  split at last
  · rename_i none'
    cases last
    have ⟨same, each⟩ := fitCandidates_none loop none'
    refine .inl ⟨rfl, by rw [same], fun message member tool => ?_⟩
    by_cases size : toolContextMinChars ≤ message.chars
    · have ⟨index, there⟩ := List.mem_iff_getElem?.mp member
      exact each _ (mem_candidates there tool size) message there
    · intro spill replacement summarized
      exact chars_le_of_brief (by simp only [toolContextMinChars, toolContextExcerptChars] at *; omega)
        summarized
  · rename_i some'
    cases last
    exact .inr ⟨_, rfl, Nat.pos_of_ne_zero some', fitCandidates_edits .none loop⟩

/-- The edits that have been counted. -/
def Counted (start : List ChatMessage) (aggregate : Option Aggregate)
    (prepared : List ChatMessage) : Prop :=
  Edits start (aggregate.getD {}).summarizedToolResults (aggregate.getD {}).charsFreed prepared

/-- The request of a compaction of these messages fits. -/
def RequestFits (around : Surroundings σ) (maxTokens : Nat) (messages : List ChatMessage) : Prop :=
  ∃ request report, around.buildCompactRequest messages = .ok request ∧
    contextRequestFits around request maxTokens = .ok report ∧ report.fits = true

variable {prepared : List ChatMessage} {aggregate aggregate' : Option Aggregate}

theorem fitTurn_returns (counted : Counted start aggregate prepared)
    (ok : fitTurn floatRepr around maxTokens prepared aggregate store =
      .ok (.returns after aggregate')) :
    Counted start aggregate' after ∧
      (RequestFits around maxTokens after ∨ AllExhausted floatRepr after) := by
  have ⟨request, built, rest⟩ := bind_eq_ok.mp ok
  have ⟨report, measured, rest⟩ := bind_eq_ok.mp rest
  split at rest
  · rename_i fits
    cases rest
    refine ⟨?_, .inl ⟨request, report, built, measured, fits⟩⟩
    cases aggregate <;> exact counted
  · have ⟨⟨fitted, edit, _⟩, fit, last⟩ := bind_eq_ok.mp rest
    rcases fitToolResultsToContext_eq_ok fit with ⟨rfl, rfl, exhausted⟩ | ⟨edit', rfl, _⟩
    · cases last
      exact ⟨counted, .inr exhausted⟩
    · exact nomatch last

theorem fitTurn_again {added : Aggregate} (counted : Counted start aggregate prepared)
    (ok : fitTurn floatRepr around maxTokens prepared aggregate store =
      .ok (.again after added store')) :
    Counted start (some added) after ∧ totalChars after < totalChars prepared := by
  have ⟨request, built, rest⟩ := bind_eq_ok.mp ok
  have ⟨report, measured, rest⟩ := bind_eq_ok.mp rest
  split at rest
  · exact nomatch rest
  · have ⟨⟨fitted, edit, _⟩, fit, last⟩ := bind_eq_ok.mp rest
    rcases fitToolResultsToContext_eq_ok fit with ⟨rfl, _⟩ | ⟨edit', rfl, positive, edits⟩
    · exact nomatch last
    · cases last
      have total := edits.total
      have freed := edits.le_freed
      exact ⟨counted.trans edits, by omega⟩

theorem fitCompactRequest_ends (floatRepr : Text → Option Text) (around : Surroundings σ)
    (maxTokens : Nat) {prepared : List ChatMessage} {aggregate : Option Aggregate}
    (counted : Counted start aggregate prepared) (store : σ) :
    ∃ result, (∀ turns, totalChars prepared < turns →
      fitCompactRequest floatRepr around maxTokens turns prepared aggregate store = some result) ∧
      ∀ after aggregate', result = .ok (after, aggregate') → Counted start aggregate' after ∧
        (RequestFits around maxTokens after ∨ AllExhausted floatRepr after) := by
  cases turn : fitTurn floatRepr around maxTokens prepared aggregate store with
  | error failure =>
    refine ⟨.error failure, fun turns enough => ?_, nofun⟩
    obtain ⟨turns, rfl⟩ := Nat.exists_eq_add_one_of_ne_zero (Nat.ne_zero_of_lt enough)
    rw [fitCompactRequest, turn]
  | ok ends =>
    cases ends with
    | returns after aggregate' =>
      refine ⟨.ok (after, aggregate'), fun turns enough => ?_, fun _ _ same => ?_⟩
      · obtain ⟨turns, rfl⟩ := Nat.exists_eq_add_one_of_ne_zero (Nat.ne_zero_of_lt enough)
        rw [fitCompactRequest, turn]
      · cases same
        exact fitTurn_returns counted turn
    | again after added store' =>
      have ⟨counted', shorter⟩ := fitTurn_again counted turn
      have ⟨result, ends, last⟩ :=
        fitCompactRequest_ends floatRepr around maxTokens counted' store'
      refine ⟨result, fun turns enough => ?_, last⟩
      obtain ⟨turns, rfl⟩ := Nat.exists_eq_add_one_of_ne_zero (Nat.ne_zero_of_lt enough)
      rw [fitCompactRequest, turn]
      exact ends turns (by omega)
termination_by totalChars prepared

/-- The loop ends within as many turns as there are characters, and one more: it raises, or it
returns messages that it has come to by counted edits, each of one tool result, when the request
fits or nothing is left to shorten. -/
theorem fit_compact_request_ends (floatRepr : Text → Option Text) (around : Surroundings σ)
    (maxTokens : Nat) (messages : List ChatMessage) (store : σ) :
    ∃ result, (∀ turns, totalChars messages < turns →
      fitCompactRequest floatRepr around maxTokens turns messages none store = some result) ∧
      ∀ prepared aggregate, result = .ok (prepared, aggregate) →
        Counted messages aggregate prepared ∧
        prepared.map ChatMessage.protocol = messages.map ChatMessage.protocol ∧
        totalChars prepared + (aggregate.getD {}).charsFreed = totalChars messages ∧
        (RequestFits around maxTokens prepared ∨ AllExhausted floatRepr prepared) := by
  have begins : Counted messages none messages := .none
  have ⟨result, ends, last⟩ := fitCompactRequest_ends floatRepr around maxTokens begins store
  refine ⟨result, ends, fun prepared aggregate same => ?_⟩
  have ⟨counted, stops⟩ := last prepared aggregate same
  exact ⟨counted, counted.protocol, counted.total, stops⟩

end AutoTrade.Compact
