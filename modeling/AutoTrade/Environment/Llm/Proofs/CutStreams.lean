import AutoTrade.Common.CutLines
import AutoTrade.Environment.Llm.Responses
import Mathlib.Data.Bool.AllAny

/-!
# Streams that were cut off

What a parser makes of the bytes of a stream up to somewhere before its finish: the error that the
retry policy covers when every data line that has begun holds a whole object, and another error
when the cut falls inside one, or inside a character.
-/

namespace AutoTrade.Llm

open Utf8 (Bytes)
open CodePoint (ofText)
open PyValue (lit)
open PyJson (get? loads)

theorem isSpace_of_json {c : Char} (space : PyJson.isSpace (.char c) = true) :
    isSpace c = true := by
  simp only [PyJson.isSpace, Bool.or_eq_true, decide_eq_true_eq] at space
  rcases space with ((rfl | rfl) | rfl) | rfl <;> rfl

theorem dataOf_cut {cut more item : Text} (read : dataOf cut = some item) :
    ∃ rest, dataOf (cut ++ more) = some (item ++ rest) ∧ visible rest = visible more := by
  have shows : ∀ {line item : Text}, dataOf line = some item →
      visible line = "data:".toList ++ visible item := by
    intro line item read
    rw [dataOf] at read
    split at read
    · rename_i marked
      have ⟨body, whole⟩ := List.isPrefixOf_iff_prefix.mp marked
      rw [← whole] at read
      rw [← visible_stripText line, ← whole, visible_append, ← Option.some.inj read]
      rw [visible_stripText]
      rfl
    · exact nomatch read
  have whole : ∃ rest, dataOf (cut ++ more) = some (item ++ rest) := by
    rw [dataOf] at read ⊢
    split at read
    · rename_i marked
      have ⟨tail, stripped⟩ := stripText_prefix cut more
      have ⟨body, begins⟩ := List.isPrefixOf_iff_prefix.mp marked
      have marked' : "data:".toList.isPrefixOf (stripText (cut ++ more)) = true :=
        List.isPrefixOf_iff_prefix.mpr
          ⟨body ++ tail, by rw [← stripped, ← begins, List.append_assoc]⟩
      have ⟨rest, inside⟩ := stripText_prefix ((stripText cut).drop 5) tail
      refine ⟨rest, ?_⟩
      rw [if_pos marked', ← Option.some.inj read, inside, ← stripped, ← begins]
      rfl
    · exact nomatch read
  have ⟨rest, read'⟩ := whole
  have same := shows read'
  rw [visible_append, shows read, visible_append, ← List.append_assoc] at same
  exact ⟨rest, read', (List.append_cancel_left same).symm⟩

variable {σ : Type}

/-- A way to read a stream: the items it passes over, and what it makes of an object; it gets over
no other value. -/
structure Reader (σ : Type) where
  skips : Text → Bool
  feed : σ → PyJson → Except ReplyError σ
  finished : σ → Bool
  feed_value : ∀ state value, value.isDict = false → feed state value = .error invalidStream
  feed_finished : ∀ {state value next}, feed state value = .ok next → finished state = true →
    finished next = true
  skips_eq : ∀ {item}, skips item = true → item = [] ∨ item = doneMark

/-- One line. -/
def Reader.line (reader : Reader σ) (state : σ) (line : Text) : Except ReplyError σ :=
  match dataOf line with
  | none => .ok state
  | some item =>
    if reader.skips item then .ok state
    else
      match loads (ofText item) with
      | none => .error invalidStream
      | some value => reader.feed state value

/-- A line with data holds a whole object, or it is passed over. -/
def Reader.Holds (reader : Reader σ) (line : Text) : Prop :=
  ∀ item, dataOf line = some item → reader.skips item = true ∨
    ∃ pairs, loads (ofText item) = some (.dict pairs)

variable {reader : Reader σ}

variable {line : Text} {state next : σ}

theorem Reader.line_holds (read : reader.line state line = .ok next) : reader.Holds line := by
  intro item data
  simp only [Reader.line, data] at read
  split at read
  · rename_i skipped
    exact .inl skipped
  · cases value : loads (ofText item) with
    | none =>
      rw [value] at read
      exact nomatch read
    | some value' =>
      rw [value] at read
      cases value' with
      | dict pairs => exact .inr ⟨pairs, rfl⟩
      | _ =>
        simp only at read
        rw [reader.feed_value _ _ rfl] at read
        exact nomatch read

theorem Reader.line_not_holds (broken : ¬ reader.Holds line) (state : σ) :
    reader.line state line = .error invalidStream := by
  simp only [Reader.Holds, not_forall, not_or] at broken
  have ⟨item, data, kept, other⟩ := broken
  simp only [Reader.line, data, kept, Bool.false_eq_true, if_false]
  cases value : loads (ofText item) with
  | none => rfl
  | some value' =>
    cases value' with
    | dict pairs => exact absurd ⟨pairs, value⟩ other
    | _ => exact reader.feed_value _ _ rfl

theorem Reader.line_finished (read : reader.line state line = .ok next)
    (finished : reader.finished state = true) :
    reader.finished next = true := by
  rw [Reader.line] at read
  split at read
  · rwa [← Except.ok.inj read]
  · split at read
    · rwa [← Except.ok.inj read]
    · split at read
      · exact nomatch read
      · exact reader.feed_finished read finished

variable {lines : List Text}

theorem Reader.lines_finished (read : lines.foldlM reader.line state = .ok next)
    (finished : reader.finished state = true) :
    reader.finished next = true :=
  foldlM_invariant (fun _ _ _ _ step here => reader.line_finished step here) read finished

theorem loads_mark {item start rest : Text} (mark : item = [] ∨ item = doneMark)
    (split : item = start ++ rest) : (loads (ofText start)).any PyJson.isDict = false := by
  have begins : start <+: doneMark := by
    rcases mark with none | done
    · rw [none] at split
      rw [(List.append_eq_nil_iff.mp split.symm).1]
      exact List.nil_prefix
    · exact ⟨rest, by rw [← split, done]⟩
  have each : ∀ n ∈ List.range 7,
      (loads (ofText (doneMark.take n))).any PyJson.isDict = false := by decide
  rw [List.prefix_iff_eq_take.mp begins]
  refine each _ (List.mem_range.mpr ?_)
  exact Nat.lt_succ_of_le begins.length_le

theorem Reader.line_eq_ok {line item : Text} {value : PyJson} (data : dataOf line = some item)
    (reads : loads (ofText item) = some value) (taken : reader.feed state value = .ok next) :
    reader.line state line = .ok next := by
  have object : value.isDict = true := by
    by_contra other
    rw [reader.feed_value state value (Bool.eq_false_iff.mpr other)] at taken
    exact nomatch taken
  have kept : reader.skips item = false := by
    refine Bool.eq_false_iff.mpr fun skipped => ?_
    have none := loads_mark (reader.skips_eq skipped) (List.append_nil item).symm
    rw [reads, Option.any_some, object] at none
    exact nomatch none
  simp only [Reader.line, data, reads, kept, Bool.false_eq_true, if_false, taken]

theorem Reader.line_cut {cut more : Text} (read : reader.line state (cut ++ more) = .ok next)
    (holds : reader.Holds cut) :
    reader.line state cut = .ok state ∨ reader.line state cut = .ok next ∧ visible more = [] := by
  cases data : dataOf cut with
  | none => exact .inl (by simp only [Reader.line, data])
  | some item =>
    have ⟨rest, data', same⟩ := @dataOf_cut cut more item data
    rcases holds item data with skipped | ⟨pairs, object⟩
    · exact .inl (by simp only [Reader.line, data, skipped, if_true])
    by_cases skipped : reader.skips item = true
    · exact .inl (by simp only [Reader.line, data, skipped, if_true])
    have kept : reader.skips (item ++ rest) = false := by
      refine Bool.eq_false_iff.mpr fun skipped => ?_
      have none := loads_mark (reader.skips_eq skipped) rfl
      rw [object] at none
      exact nomatch none
    have ofText_append : ofText (item ++ rest) = ofText item ++ ofText rest := List.map_append ..
    have whole : reader.Holds (cut ++ more) := reader.line_holds read
    rcases whole _ data' with skipped' | ⟨pairs', object'⟩
    · rw [kept] at skipped'
      exact nomatch skipped'
    rw [ofText_append] at object'
    have ⟨alike, spaces⟩ := (PyJson.loads_append object).mp object'
    refine .inr ⟨?_, ?_⟩
    · simp only [Reader.line, data', kept, Bool.false_eq_true, if_false, ofText_append,
        object'] at read
      simp only [Reader.line, data, skipped, object]
      rw [← alike]
      exact read
    · rw [← same, visible, List.filter_eq_nil_iff]
      intro c member
      have space := isSpace_of_json (spaces (.char c) (List.mem_map_of_mem member))
      simp [space]

theorem Reader.lines_hold (read : lines.foldlM reader.line state = .ok next) :
    ∀ q ∈ lines, reader.Holds q := by
  induction lines generalizing state with
  | nil => exact nofun
  | cons q lines ih =>
    have ⟨middle, first, later⟩ := foldlM_cons_eq_ok.mp read
    exact List.forall_mem_cons.mpr ⟨reader.line_holds first, ih later⟩

/-- What the reader makes of a cut stream: a state that is not finished, or a refusal. -/
def Reader.Stopped (reader : Reader σ) (start : σ) (lines : List Text) : Prop :=
  (∃ reached, lines.foldlM reader.line start = .ok reached ∧ reader.finished reached = false ∧
      ∀ q ∈ lines, reader.Holds q) ∨
    lines.foldlM reader.line start = .error invalidStream ∧ ∃ q ∈ lines, ¬ reader.Holds q

theorem Reader.stopped_last {cut : Text} {start state : σ}
    (read : lines.foldlM reader.line start = .ok state)
    (goes : reader.Holds cut → ∃ reached, reader.line state cut = .ok reached ∧
      reader.finished reached = false) : reader.Stopped start (lines ++ [cut]) := by
  by_cases holds : reader.Holds cut
  · have ⟨reached, last, unfinished⟩ := goes holds
    have whole : (lines ++ [cut]).foldlM reader.line start = .ok reached :=
      foldlM_append_eq_ok.mpr ⟨state, read, foldlM_cons_eq_ok.mpr ⟨reached, last, rfl⟩⟩
    exact .inl ⟨reached, whole, unfinished, reader.lines_hold whole⟩
  · refine .inr ⟨?_, cut, by simp, holds⟩
    rw [List.foldlM_append, read]
    change [cut].foldlM reader.line state = _
    rw [List.foldlM_cons, reader.line_not_holds holds]
    rfl

variable {before : List Text}

theorem Reader.lines_cut {start state next : σ}
    (read : before.foldlM reader.line start = .ok state)
    (unfinished : reader.finished state = false) (last : reader.line state line = .ok next)
    (cut : Cut before line lines) : reader.Stopped start lines := by
  have early : ∀ {later : List Text} {s : σ}, later.foldlM reader.line s = .ok state →
      reader.finished s = false := by
    intro later s rest
    refine Bool.eq_false_iff.mpr fun finished => ?_
    rw [reader.lines_finished rest finished] at unfinished
    exact nomatch unfinished
  cases cut with
  | nothing => exact .inl ⟨start, rfl, early read, nofun⟩
  | within split =>
    rw [split] at read
    have ⟨s, first, rest⟩ := foldlM_append_eq_ok.mp read
    have ⟨s', whole, later⟩ := foldlM_cons_eq_ok.mp rest
    refine reader.stopped_last first fun holds => ?_
    rcases reader.line_cut whole holds with stays | ⟨same, _⟩
    · exact ⟨s, stays, early rest⟩
    · exact ⟨s', same, early later⟩
  | last split missing =>
    refine reader.stopped_last read fun holds => ?_
    rw [split] at last
    rcases reader.line_cut last holds with stays | ⟨_, none⟩
    · exact ⟨state, stays, unfinished⟩
    · exact absurd none missing

variable {py : Builtins}

theorem finishes_finished {state : StreamState} (choice : PyJson)
    (finished : state.finishReason.isSome = true) :
    (state.finishes choice).finishReason.isSome = true := by
  rw [StreamState.finishes]
  split
  · exact finished
  · exact finished
  · rfl

theorem feedDelta_finishReason {state next : StreamState} {delta : PyJson}
    (read : feedDelta state delta = .ok next) : next.finishReason = state.finishReason := by
  rw [feedDelta] at read
  split at read
  · exact nomatch read
  · have ⟨content, _, read⟩ := bind_eq_ok.mp read
    have ⟨reasoning, _, read⟩ := bind_eq_ok.mp read
    have ⟨rawCalls, _, read⟩ := bind_eq_ok.mp read
    have ⟨tools, _, read⟩ := bind_eq_ok.mp read
    rw [← pure_eq_ok.mp read]

theorem feedChunk_finished {state next : StreamState} {chunk : PyJson}
    (read : feedChunk py state chunk = .ok next) (finished : state.finishReason.isSome = true) :
    next.finishReason.isSome = true := by
  rw [feedChunk] at read
  split at read
  · exact nomatch read
  · simp only at read
    split at read
    · rwa [← Except.ok.inj read]
    · split at read
      · exact nomatch read
      · split at read
        · rwa [← Except.ok.inj read]
        · split at read
          · rw [← Except.ok.inj read]
            exact finishes_finished _ finished
          · rw [feedDelta_finishReason read]
            exact finishes_finished _ finished
    · exact nomatch read

/-- Up to its `[DONE]` a stream is read line by line. -/
def chatReader (py : Builtins) : Reader StreamState where
  skips item := item = doneMark
  feed := feedChunk py
  finished state := state.finishReason.isSome
  feed_value state value other := by rw [feedChunk, other]; rfl
  feed_finished := feedChunk_finished
  skips_eq skipped := .inr (of_decide_eq_true skipped)

theorem feedLines_singleton (state : StreamState) (line : Text) :
    feedLines py state [line] = (chatReader py).line state line := by
  rw [feedLines, Reader.line]
  cases dataOf line with
  | none => rfl
  | some item =>
    by_cases done : item = doneMark
    · simp [chatReader, done]
    · simp only [chatReader, done, if_false, decide_false, Bool.false_eq_true]
      cases loads (ofText item) with
      | none => rfl
      | some chunk =>
        change feedChunk py state chunk >>= (feedLines py · []) = feedChunk py state chunk
        cases feedChunk py state chunk <;> rfl

theorem feedLines_append {lines : List Text} (undone : ∀ q ∈ lines, dataOf q ≠ some doneMark)
    (state : StreamState) (later : List Text) : feedLines py state (lines ++ later) =
      lines.foldlM (chatReader py).line state >>= (feedLines py · later) := by
  induction lines generalizing state with
  | nil => rfl
  | cons line lines ih =>
    have here := undone line List.mem_cons_self
    have next := ih fun q member => undone q (List.mem_cons_of_mem line member)
    rw [List.cons_append, feedLines, List.foldlM_cons, Reader.line]
    cases data : dataOf line with
    | none => exact next state
    | some item =>
      have kept : item ≠ doneMark := fun same => here (same ▸ data)
      simp only [chatReader, kept, if_false, decide_false, Bool.false_eq_true]
      cases loads (ofText item) with
      | none => rfl
      | some chunk =>
        change feedChunk py state chunk >>= (feedLines py · (lines ++ later)) =
          (feedChunk py state chunk >>= fun state => lines.foldlM (chatReader py).line state) >>=
            (feedLines py · later)
        cases feedChunk py state chunk with
        | error error => rfl
        | ok state => exact next state

theorem feedLines_cut {before lines : List Text} (undone : ∀ q ∈ before, dataOf q ≠ some doneMark)
    (cut : Cut before line lines) (state : StreamState) :
    feedLines py state lines = lines.foldlM (chatReader py).line state := by
  have last : ∀ {lines : List Text} {cut : Text}, (∀ q ∈ lines, dataOf q ≠ some doneMark) →
      feedLines py state (lines ++ [cut]) = (lines ++ [cut]).foldlM (chatReader py).line state := by
    intro lines cut undone
    rw [feedLines_append undone, List.foldlM_append]
    congr 1
    funext state
    rw [feedLines_singleton, List.foldlM_cons]
    exact (bind_pure _).symm
  cases cut with
  | nothing => rfl
  | within split => exact last fun q member => undone q (split ▸ List.mem_append_left _ member)
  | last split missing => exact last undone

/-- An event that adds to a refusal. -/
def Refuses (event : PyJson) : Prop :=
  get? (lit "type") event = some (.str (lit "response.refusal.delta")) ∧
    ∃ delta, get? (lit "delta") event = some (.str delta)

theorem feedKind_refusal (state : EventState) (event : PyJson) :
    feedKind py state event (lit "response.refusal.delta") =
      match get? (lit "delta") event with
      | some (.str delta) => .ok { state with refusal := some (state.refusal.getD [] ++ delta) }
      | _ => .ok state := by
  rw [feedKind]
  iterate 6 rw [if_neg (by decide +kernel)]
  exact if_pos rfl

theorem feedKind_frame {state next : EventState} {event : PyJson} {kind : PyStr}
    (other : kind ≠ lit "response.refusal.delta") (read : feedKind py state event kind = .ok next) :
    next.refusal = state.refusal ∧
      (state.terminal.isSome = true → next.terminal.isSome = true) := by
  have calls : ∀ {calls : Except ReplyError (List (CallKey × Assembled))},
      (do let calls ← calls; pure { state with calls } : Except ReplyError EventState) = .ok next →
        next.refusal = state.refusal ∧
          (state.terminal.isSome = true → next.terminal.isSome = true) := by
    intro calls read
    have ⟨calls, _, read⟩ := bind_eq_ok.mp read
    rw [← pure_eq_ok.mp read]
    exact ⟨rfl, id⟩
  rw [feedKind] at read
  split at read
  · split at read
    · rw [← Except.ok.inj read]
      exact ⟨rfl, fun _ => rfl⟩
    · exact nomatch read
  split at read
  · exact nomatch read
  split at read
  · exact calls read
  split at read
  · exact calls read
  split at read
  · exact calls read
  split at read
  · split at read
    · rw [← Except.ok.inj read]
      exact ⟨rfl, id⟩
    · exact nomatch read
  -- the branch of a refusal is closed by `other`
  rw [← Except.ok.inj read]
  exact ⟨rfl, id⟩

theorem feedEvent_eq_ok {state next : EventState} {event : PyJson}
    (read : feedEvent py state event = .ok next) :
    (next.refusal.isSome = true ↔ state.refusal.isSome = true ∨ Refuses event) ∧
      (state.terminal.isSome = true → next.terminal.isSome = true) := by
  have still : (∀ kind, get? (lit "type") event ≠ some (.str kind)) → state = next →
      (next.refusal.isSome = true ↔ state.refusal.isSome = true ∨ Refuses event) ∧
        (state.terminal.isSome = true → next.terminal.isSome = true) := by
    rintro untyped rfl
    exact ⟨⟨.inl, fun refused => refused.resolve_right fun refuses => untyped _ refuses.1⟩, id⟩
  rw [feedEvent] at read
  split at read
  · exact nomatch read
  split at read
  · rename_i kind typed
    by_cases refusal : kind = lit "response.refusal.delta"
    · rw [refusal, feedKind_refusal] at read
      rw [refusal] at typed
      split at read
      · rename_i delta text
        rw [← Except.ok.inj read]
        exact ⟨iff_of_true rfl (.inr ⟨typed, delta, text⟩), id⟩
      · rename_i none
        rw [← Except.ok.inj read]
        refine ⟨⟨.inl, fun refused => refused.resolve_right ?_⟩, id⟩
        exact fun ⟨_, delta, text⟩ => none delta text
    · have ⟨same, finished⟩ := feedKind_frame refusal read
      have calm : ¬ Refuses event := fun refuses =>
        refusal (PyJson.str.inj (Option.some.inj (typed.symm.trans refuses.1)))
      exact ⟨by rw [same]; simp [calm], finished⟩
  · exact nomatch read
  · exact nomatch read
  · rename_i untyped _ _
    exact still untyped (Except.ok.inj read)

def eventReader (py : Builtins) : Reader EventState where
  skips item := item = [] ∨ item = doneMark
  feed := feedEvent py
  finished state := state.terminal.isSome
  feed_value state value other := by rw [feedEvent, other]; rfl
  feed_finished read := (feedEvent_eq_ok read).2
  skips_eq skipped := of_decide_eq_true skipped

theorem feedEvents_eq (state : EventState) (lines : List Text) :
    feedEvents py state lines = lines.foldlM (eventReader py).line state := by
  induction lines generalizing state with
  | nil => rfl
  | cons line lines ih =>
    rw [feedEvents, List.foldlM_cons, Reader.line]
    cases dataOf line with
    | none => exact ih state
    | some item =>
      by_cases skipped : item = [] ∨ item = doneMark
      · simp only [eventReader, skipped, if_true, decide_true]
        exact ih state
      · simp only [eventReader, skipped, if_false, decide_false, Bool.false_eq_true]
        cases loads (ofText item) with
        | none => rfl
        | some event =>
          change feedEvent py state event >>= (feedEvents py · lines) =
            feedEvent py state event >>= fun state => lines.foldlM (eventReader py).line state
          cases feedEvent py state event with
          | error error => rfl
          | ok state => exact ih state

inductive Dialect where
  | chat
  | responses

def Dialect.parseStream (py : Builtins) :
    Dialect → Bytes → PyStr → Except ReplyError ProviderResponse
  | chat => parseStreamResponse py
  | responses => parseResponsesStream py

/-- The line that carries the finish reason, or the terminal event, after lines that are read and
do not. -/
inductive Finishes (py : Builtins) (model : PyStr) (before : List Text) (line : Text) :
    Dialect → Prop where
  | chat {item : Text} {state next : StreamState} {chunk : PyJson}
      (undone : ∀ q ∈ before, dataOf q ≠ some doneMark)
      (feeds : feedLines py (.start model) before = .ok state)
      (unfinished : state.finishReason = none) (data : dataOf line = some item)
      (reads : loads (ofText item) = some chunk)
      (last : feedChunk py state chunk = .ok next) (finished : next.finishReason ≠ none) :
      Finishes py model before line .chat
  | responses {item : Text} {state next : EventState} {event : PyJson}
      (feeds : feedEvents py .start before = .ok state) (unfinished : state.terminal = none)
      (data : dataOf line = some item) (reads : loads (ofText item) = some event)
      (last : feedEvent py state event = .ok next) (finished : next.terminal ≠ none) :
      Finishes py model before line .responses

/-- A stream: the lines before its finish, the text of the line that finishes it, up to the last
character there is to see, and what comes after. -/
structure EventStream (py : Builtins) (model : PyStr) (dialect : Dialect)
    (before line after : Text) : Prop where
  ended : Ended before
  unbroken : ∀ c ∈ line, isLineBreak c = false
  shown : ∃ z, line.getLast? = some z ∧ isSpace z = false
  alone : ∃ blank rest, after = blank ++ rest ∧ (∀ c ∈ blank, isSpace c = true) ∧
    ∀ c ∈ rest.head?, isLineBreak c = true
  isStream : isBody (Utf8.encode (before ++ line ++ after)) = false
  finishes : Finishes py model (splitLines before) line dialect

/-- The lines that a cut stream may have for its error to be the one that is retried: the data of
each is a whole object, and in the responses dialect none adds to a refusal. -/
def Dialect.Passes : Dialect → Text → Prop
  | chat, line => ∀ item, dataOf line = some item →
      item = doneMark ∨ ∃ pairs, loads (ofText item) = some (.dict pairs)
  | responses, line => ∀ item, dataOf line = some item → (item = [] ∨ item = doneMark) ∨
      ∃ pairs, loads (ofText item) = some (.dict pairs) ∧ ¬ Refuses (.dict pairs)

theorem isBody_cut {raw p : Bytes} (cut : p <+: raw) (isStream : isBody raw = false) :
    isBody p = false := by
  have ⟨rest, whole⟩ := cut
  rw [← whole, isBody, List.dropWhile_append] at isStream
  rw [isBody]
  cases left : p.dropWhile fun b => b ∈ [9, 10, 11, 12, 13, 32] with
  | nil => rfl
  | cons b left' =>
    rw [left] at isStream
    exact isStream

theorem decode_cut {whole t : Text} {p : Bytes} (cut : p <+: Utf8.encode whole)
    (proper : p ≠ Utf8.encode whole) (read : CodePoint.decode p = some t) :
    ∃ rest, t ++ rest = whole ∧ rest ≠ [] := by
  have ⟨tail, split⟩ := cut
  rw [CodePoint.decode_eq_some.mp read] at split proper
  have text : whole = t ++ Utf8.decode tail := by
    rw [← Utf8.decode_encode_append, split, Utf8.decode_encode]
  refine ⟨Utf8.decode tail, text.symm, fun none => proper ?_⟩
  rw [text, none, List.append_nil]

/-- A parser raises an error, and one that is tried again. -/
def Retried (result : Except ReplyError ProviderResponse) : Prop :=
  ∃ error, result = .error error ∧ error.retryable = true

theorem retried_error {error : ReplyError} :
    Retried (.error error) ↔ error.retryable = true :=
  ⟨fun ⟨_, same, again⟩ => Except.error.inj same ▸ again, fun again => ⟨error, rfl, again⟩⟩

theorem conclude_unfinished {state : StreamState} (unfinished : state.finishReason.isSome = false) :
    conclude py state = .error cutOff := by
  rw [conclude, if_pos (by simpa using unfinished)]
  rfl

theorem chat_retried {model : PyStr} (finishes : Finishes py model before line .chat)
    (cut : Cut before line lines) :
    Retried (feedLines py (.start model) lines >>= conclude py) ↔
      ∀ q ∈ lines, Dialect.chat.Passes q := by
  have passes : ∀ q, Dialect.chat.Passes q ↔ (chatReader py).Holds q := by
    intro q
    simp only [Dialect.Passes, Reader.Holds, chatReader, decide_eq_true_eq]
  simp only [passes]
  cases finishes with
  | @chat item state next chunk undone feeds unfinished data reads last finished =>
    have read : before.foldlM (chatReader py).line (.start model) = .ok state := by
      have whole := @feedLines_append py before undone (.start model) []
      rw [List.append_nil, feeds] at whole
      have ⟨reached, first, rest⟩ := bind_eq_ok.mp whole.symm
      rw [first, ← Except.ok.inj rest]
    have still : (chatReader py).finished state = false := by simp [chatReader, unfinished]
    have ends := (chatReader py).line_eq_ok data reads last
    rw [feedLines_cut undone cut]
    rcases (chatReader py).lines_cut read still ends cut with
      ⟨reached, goes, still, holds⟩ | ⟨refused, q, member, broken⟩
    · rw [goes]
      change Retried (conclude py reached) ↔ _
      rw [conclude_unfinished still]
      exact iff_of_true (retried_error.mpr rfl) holds
    · rw [refused]
      exact iff_of_false (fun again => nomatch retried_error.mp again) fun holds =>
        broken (holds q member)

theorem concludeEvents_unfinished {state : EventState} (model : PyStr)
    (unfinished : state.terminal.isSome = false) :
    Retried (concludeEvents py state model) ↔ state.refusal.isSome = false := by
  have open' : state.terminal = none := by simpa using unfinished
  rw [concludeEvents]
  cases refused : state.refusal with
  | some refusal => exact iff_of_false (fun again => nomatch retried_error.mp again) (by simp)
  | none =>
    simp only [open']
    exact iff_of_true (retried_error.mpr rfl) rfl

/-- The lines that add to a refusal. -/
def RefusesLine (line : Text) : Prop :=
  ∃ item pairs, dataOf line = some item ∧ loads (ofText item) = some (.dict pairs) ∧
    Refuses (.dict pairs)

theorem eventReader_refusal {state next : EventState}
    (read : (eventReader py).line state line = .ok next) :
    next.refusal.isSome = true ↔ state.refusal.isSome = true ∨ RefusesLine line := by
  have calm : ∀ {state next : EventState}, state = next → ¬ RefusesLine line →
      (next.refusal.isSome = true ↔ state.refusal.isSome = true ∨ RefusesLine line) := by
    rintro state next rfl calm
    exact ⟨.inl, fun refused => refused.resolve_right calm⟩
  cases data : dataOf line with
  | none =>
    simp only [Reader.line, data] at read
    exact calm (Except.ok.inj read) fun ⟨_, _, data', _⟩ => nomatch data.symm.trans data'
  | some item =>
    rcases (eventReader py).line_holds read item data with skipped | ⟨pairs, object⟩
    · simp only [Reader.line, data, skipped, if_true] at read
      refine calm (Except.ok.inj read) fun ⟨item', pairs, data', object, _⟩ => ?_
      have none := loads_mark ((eventReader py).skips_eq skipped) (List.append_nil item).symm
      rw [Option.some.inj (data.symm.trans data'), object] at none
      exact nomatch none
    · have refuses : RefusesLine line ↔ Refuses (.dict pairs) := by
        constructor
        · intro ⟨item', pairs', data', object', refuses⟩
          rw [← Option.some.inj (data.symm.trans data'), object] at object'
          rwa [Option.some.inj object']
        · intro refuses
          exact ⟨item, pairs, data, object, refuses⟩
      by_cases skipped : (eventReader py).skips item = true
      · have none := loads_mark ((eventReader py).skips_eq skipped) (List.append_nil item).symm
        rw [object] at none
        exact nomatch none
      · simp only [Reader.line, data, skipped, Bool.false_eq_true, if_false, object] at read
        have fed : feedEvent py state (.dict pairs) = .ok next := read
        rw [refuses]
        exact (feedEvent_eq_ok fed).1

theorem eventReader_refusals {state next : EventState}
    (read : lines.foldlM (eventReader py).line state = .ok next) :
    next.refusal.isSome = true ↔ state.refusal.isSome = true ∨ ∃ q ∈ lines, RefusesLine q := by
  induction lines generalizing state with
  | nil =>
    rw [← Except.ok.inj read]
    simp
  | cons line lines ih =>
    have ⟨middle, first, later⟩ := foldlM_cons_eq_ok.mp read
    rw [ih later, eventReader_refusal first, or_assoc]
    simp

theorem responses_retried {model : PyStr} (finishes : Finishes py model before line .responses)
    (cut : Cut before line lines) :
    Retried (feedEvents py .start lines >>= fun state => concludeEvents py state model) ↔
      ∀ q ∈ lines, Dialect.responses.Passes q := by
  have passes : ∀ q, Dialect.responses.Passes q ↔ (eventReader py).Holds q ∧ ¬ RefusesLine q := by
    intro q
    simp only [Dialect.Passes, Reader.Holds, eventReader, decide_eq_true_eq]
    constructor
    · intro passes
      refine ⟨fun item data => (passes item data).imp_right fun ⟨pairs, object, _⟩ =>
        ⟨pairs, object⟩, ?_⟩
      intro ⟨item, pairs, data, object, refuses⟩
      rcases passes item data with skipped | ⟨pairs', object', calm⟩
      · have none := loads_mark skipped (List.append_nil item).symm
        rw [object] at none
        exact nomatch none
      · rw [object] at object'
        exact calm (Option.some.inj object' ▸ refuses)
    · intro ⟨holds, calm⟩ item data
      refine (holds item data).imp_right fun ⟨pairs, object⟩ => ⟨pairs, object, fun refuses => ?_⟩
      exact calm ⟨item, pairs, data, object, refuses⟩
  simp only [passes]
  cases finishes with
  | @responses item state next event feeds unfinished data reads last finished =>
    rw [feedEvents_eq] at feeds ⊢
    have still : (eventReader py).finished state = false := by simp [eventReader, unfinished]
    have ends := (eventReader py).line_eq_ok data reads last
    rcases (eventReader py).lines_cut feeds still ends cut with
      ⟨reached, goes, still, holds⟩ | ⟨refused, q, member, broken⟩
    · have refusals := eventReader_refusals goes
      rw [goes]
      change Retried (concludeEvents py reached model) ↔ _
      rw [concludeEvents_unfinished model still, Bool.eq_false_iff, ne_eq, refusals]
      simp only [EventState.start, Option.isSome_none, Bool.false_eq_true, false_or, not_exists,
        not_and]
      exact ⟨fun calm q member => ⟨holds q member, calm q member⟩, fun each q member =>
        (each q member).2⟩
    · rw [refused]
      exact iff_of_false (fun again => nomatch retried_error.mp again) fun each =>
        broken (each q member).1

/-- A stream that was cut before its finish is asked for again exactly when the cut falls between
characters, no data line has begun without being whole, and nothing of a refusal has come. -/
theorem cut_stream_iff {model : PyStr} {dialect : Dialect} {before line after : Text}
    (stream : EventStream py model dialect before line after) {p : Bytes}
    (cut : p <+: Utf8.encode (before ++ line)) (proper : p ≠ Utf8.encode (before ++ line)) :
    (∃ error, dialect.parseStream py p model = .error error ∧ error.retryable = true) ↔
      ∃ t, CodePoint.decode p = some t ∧ ∀ q ∈ splitLines t, dialect.Passes q := by
  have isStream : isBody p = false := by
    refine isBody_cut (cut.trans ?_) stream.isStream
    exact ⟨Utf8.encode after, by rw [← Utf8.encode_append]⟩
  have none : CodePoint.decode p = none →
      dialect.parseStream py p model = .error invalidStream := by
    intro none
    cases dialect with
    | chat => simp [Dialect.parseStream, parseStreamResponse, isStream, none]
    | responses => simp [Dialect.parseStream, parseResponsesStream, isStream, none]
  cases text : CodePoint.decode p with
  | none =>
    rw [none text]
    exact iff_of_false (fun again => nomatch retried_error.mp again) (by simp)
  | some t =>
    have ⟨rest, split, missing⟩ := decode_cut cut proper text
    have ⟨z, last, shows⟩ := stream.shown
    have lines := splitLines_cut_line stream.ended stream.unbroken last shows split missing
    simp only [Option.some.injEq, exists_eq_left']
    have finishes := stream.finishes
    cases dialect with
    | chat =>
      rw [← chat_retried finishes lines]
      simp [Dialect.parseStream, parseStreamResponse, isStream, text, Retried]
    | responses =>
      rw [← responses_retried finishes lines]
      simp [Dialect.parseStream, parseResponsesStream, isStream, text, Retried]

/-- A line that finishes a chat stream. -/
def finishLine : Text := "data: \x7b\"choices\":[\x7b\"finish_reason\":\"stop\"\x7d]\x7d".toList

/-- Nothing of what a parser is given is shown in an error. -/
def unspoken : Builtins := ⟨fun _ => [], fun _ => []⟩

theorem finishLine_stream : EventStream unspoken [] .chat [] finishLine "\n".toList where
  ended := nofun
  unbroken := List.all_iff_forall_prop.mp (by decide)
  shown := ⟨'}', rfl, rfl⟩
  alone := ⟨[], _, rfl, nofun, fun c head => by cases head; rfl⟩
  isStream := rfl
  finishes := .chat nofun rfl rfl rfl rfl rfl nofun

/-- A stream cut before its first byte is asked for again. -/
theorem cut_before_stream : ∃ error, Dialect.chat.parseStream unspoken [] [] = .error error ∧
    error.retryable = true := by
  refine (cut_stream_iff finishLine_stream List.nil_prefix ?_).mpr ⟨[], rfl, nofun⟩
  decide

/-- A stream cut inside its data line is not. -/
theorem cut_in_data_line :
    EventStream unspoken [] .chat [] finishLine "\n".toList ∧
      Utf8.encode "data: \x7b".toList <+: Utf8.encode finishLine ∧
      Utf8.encode "data: \x7b".toList ≠ Utf8.encode finishLine ∧
      ∃ error, Dialect.chat.parseStream unspoken (Utf8.encode "data: \x7b".toList) [] =
        .error error ∧ error.retryable = false :=
  ⟨finishLine_stream, ⟨Utf8.encode (finishLine.drop 7), rfl⟩, by decide, invalidStream, rfl, rfl⟩

end AutoTrade.Llm
