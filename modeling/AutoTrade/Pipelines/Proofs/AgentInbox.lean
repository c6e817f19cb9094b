import AutoTrade.Common.JsonObject
import AutoTrade.Misc.Runs
import AutoTrade.Pipelines.AgentInbox

/-!
# The fold of the inbox log

A log of clean records is read back, and the state folded from it knows of every
message what its records say. The records an operation decides on in such a
state are folded in turn.
-/

namespace AutoTrade.AgentInbox

open Json JsonLines

/-- A token that a record is read back with. -/
abbrev Filled (t : Text) : Prop := stripText t ≠ []

/-- A record that `_parse_record` accepts. -/
def InboxEvent.Valid : InboxEvent → Prop
  | .queued messageId sessionKey _ _ createdAt =>
    Filled messageId ∧ Filled sessionKey ∧ createdAt ≠ []
  | .consumed messageId sessionKey consumedAt consumedBy =>
    Filled messageId ∧ Filled sessionKey ∧ consumedAt ≠ [] ∧ Filled consumedBy
  | .expired messageId sessionKey expiredAt expiredBy =>
    Filled messageId ∧ Filled sessionKey ∧ expiredAt ≠ [] ∧ Filled expiredBy
  | .reopened messageId sessionKey reopenedAt =>
    Filled messageId ∧ Filled sessionKey ∧ reopenedAt ≠ []
  | .sessionExpired sessionKey expiredAt expiredBy =>
    Filled sessionKey ∧ expiredAt ≠ [] ∧ Filled expiredBy
  | .sessionOpened sessionKey openedAt openedBy =>
    Filled sessionKey ∧ openedAt ≠ [] ∧ Filled openedBy

/-- The strings of a record that are not its field names. -/
def InboxEvent.texts : InboxEvent → List Text
  | .queued messageId sessionKey text _ createdAt => [createdAt, messageId, sessionKey, text]
  | .consumed messageId sessionKey consumedAt consumedBy =>
    [consumedAt, consumedBy, messageId, sessionKey]
  | .expired messageId sessionKey expiredAt expiredBy =>
    [expiredAt, expiredBy, messageId, sessionKey]
  | .reopened messageId sessionKey reopenedAt => [messageId, reopenedAt, sessionKey]
  | .sessionExpired sessionKey expiredAt expiredBy => [expiredAt, expiredBy, sessionKey]
  | .sessionOpened sessionKey openedAt openedBy => [openedAt, openedBy, sessionKey]

variable {event : InboxEvent}

theorem parseRecord_toRecord (valid : event.Valid) : parseRecord event.toRecord = .ok event := by
  have get (payload : JsonObject) (key : String) :
      (obj payload).get? key.toList = payload.field key := rfl
  cases event <;> simp only [InboxEvent.Valid, Filled] at valid
  all_goals
    simp [-String.reduceToList, String.toList_inj, parseRecord, InboxEvent.toRecord, versioned,
      textField, tokenField, stampField, boolField, get, JsonObject.field_cons_self,
      JsonObject.field_cons_of_ne, schemaVersion, bind, Except.bind, pure, Except.pure, valid]

theorem breaksLine_toRecord (event : InboxEvent) :
    breaksLine event.toRecord = event.texts.any fun t => t.any isRawBreak := by
  cases event
  all_goals
    simp [breaksLine, InboxEvent.toRecord, InboxEvent.texts, strings, stringsOfFields, isRawBreak]

/-- A text that is not blank and does not break its line. -/
structure Clean (t : Text) : Prop where
  filled : stripText t ≠ []
  plain : t.any isRawBreak = false

theorem Clean.ne_nil {t : Text} (clean : Clean t) : t ≠ [] := by
  rintro rfl
  exact clean.filled rfl

theorem clean_token (token : Token) : Clean token.text := ⟨token.filled, token.plain⟩

/-- Every text of the record is clean. -/
def InboxEvent.Clean (event : InboxEvent) : Prop := ∀ t ∈ event.texts, AgentInbox.Clean t

theorem InboxEvent.Clean.valid (clean : event.Clean) : event.Valid := by
  cases event <;> simp only [InboxEvent.Clean, InboxEvent.texts, List.forall_mem_cons] at clean
  case queued => exact ⟨clean.2.1.filled, clean.2.2.1.filled, clean.1.ne_nil⟩
  case consumed =>
    exact ⟨clean.2.2.1.filled, clean.2.2.2.1.filled, clean.1.ne_nil, clean.2.1.filled⟩
  case expired =>
    exact ⟨clean.2.2.1.filled, clean.2.2.2.1.filled, clean.1.ne_nil, clean.2.1.filled⟩
  case reopened => exact ⟨clean.1.filled, clean.2.2.1.filled, clean.2.1.ne_nil⟩
  case sessionExpired => exact ⟨clean.2.2.1.filled, clean.1.ne_nil, clean.2.1.filled⟩
  case sessionOpened => exact ⟨clean.2.2.1.filled, clean.1.ne_nil, clean.2.1.filled⟩

theorem InboxEvent.Clean.whole (clean : event.Clean) : breaksLine event.toRecord = false := by
  rw [breaksLine_toRecord, List.any_eq_false]
  intro t member
  simp [(clean t member).plain]

/-- The log of records that are read back. -/
structure Log (file : Text) (events : List InboxEvent) : Prop where
  written : file = dumpLines (events.map InboxEvent.toRecord)
  clean : ∀ event ∈ events, event.Clean

theorem Log.append {file : Text} {events more : List InboxEvent} (log : Log file events)
    (clean : ∀ event ∈ more, event.Clean) : Log (appendRecords file more) (events ++ more) := by
  refine ⟨?_, ?_⟩
  · rw [appendRecords, log.written, List.map_append]
    simp [dumpLines]
  · intro event member
    exact (List.mem_append.mp member).elim (log.clean event) (clean event)

theorem Log.loadState {file : Text} {events : List InboxEvent} (log : Log file events) :
    loadState file = events.foldlM applyEvent {} := by
  have read : loadLines strippedReader file = some (events.map InboxEvent.toRecord) := by
    rw [log.written]
    refine loadLines_dumpLines fun fields member => ?_
    obtain ⟨event, inLog, rfl⟩ := List.mem_map.mp member
    exact (log.clean event inLog).whole
  have clean := log.clean
  unfold AgentInbox.loadState
  rw [foldLines_of_load read]
  clear read log
  generalize ({} : InboxState) = state
  induction events generalizing state with
  | nil => rfl
  | cons event events ih =>
    rw [List.map_cons, List.foldlM_cons, List.foldlM_cons,
      parseRecord_toRecord (clean event List.mem_cons_self).valid]
    exact bind_congr fun state' =>
      ih (fun event' member => clean event' (List.mem_cons_of_mem event member)) state'

theorem loadState_broken {events : List InboxEvent} (member : event ∈ events)
    (broken : breaksLine event.toRecord = true) (rest : Text) :
    ∃ e, loadState (dumpLines (events.map InboxEvent.toRecord) ++ rest) = .error e :=
  foldLines_of_not_load
    (loadLines_broken (List.mem_map.mpr ⟨event, member, rfl⟩) broken rest) _

/-- The message a record changes. -/
def InboxEvent.touches? : InboxEvent → Option Text
  | .consumed messageId .. => some messageId
  | .expired messageId .. => some messageId
  | .reopened messageId .. => some messageId
  | _ => none

/-- The session a record belongs to. -/
def InboxEvent.key : InboxEvent → Text
  | .queued _ sessionKey .. => sessionKey
  | .consumed _ sessionKey .. => sessionKey
  | .expired _ sessionKey .. => sessionKey
  | .reopened _ sessionKey _ => sessionKey
  | .sessionExpired sessionKey .. => sessionKey
  | .sessionOpened sessionKey .. => sessionKey

def queuedId? : InboxEvent → Option Text
  | .queued messageId .. => some messageId
  | _ => none

/-- The session's last word among the records is that it expired. -/
def Closed (events : List InboxEvent) (sessionKey : Text) : Prop :=
  ∃ before expiredAt expiredBy after,
    events = before ++ .sessionExpired sessionKey expiredAt expiredBy :: after ∧
      ∀ openedAt openedBy, .sessionOpened sessionKey openedAt openedBy ∉ after

def Expired (events : List InboxEvent) (messageId : Text) : Prop :=
  ∃ sessionKey expiredAt expiredBy, .expired messageId sessionKey expiredAt expiredBy ∈ events

/-- What the fold of the records knows of each message. -/
structure Folded (events : List InboxEvent) (state : InboxState) : Prop where
  order : state.messages.keys = events.filterMap queuedId?
  kept : ∀ {messageId sessionKey text interrupt createdAt},
    .queued messageId sessionKey text interrupt createdAt ∈ events →
      ∃ message, state.messages.get? messageId = some message ∧
        message.sessionKey = sessionKey ∧ message.text = text ∧
        message.interrupt = interrupt ∧ message.createdAt = createdAt
  source : ∀ {messageId message}, state.messages.get? messageId = some message →
    .queued messageId message.sessionKey message.text message.interrupt message.createdAt ∈ events
  named : ∀ {messageId message}, state.messages.get? messageId = some message →
    message.messageId = messageId
  consumed : ∀ {messageId message}, state.messages.get? messageId = some message →
    (state.consumed.get? messageId).isSome = message.consumedAt.isSome ∧
      message.consumedBy.isSome = message.consumedAt.isSome
  consumer : ∀ {messageId message runId}, state.messages.get? messageId = some message →
    message.consumedBy = some runId →
      ∃ consumedAt, .consumed messageId message.sessionKey consumedAt runId ∈ events
  expired : ∀ {messageId message}, state.messages.get? messageId = some message →
    (message.expiredAt.isSome ↔ Expired events messageId)
  closed : ∀ {sessionKey}, sessionKey ∈ state.expiredSessions ↔ Closed events sessionKey
  keyed : ∀ {event messageId}, event ∈ events → event.touches? = some messageId →
    ∃ message, state.messages.get? messageId = some message ∧ message.sessionKey = event.key

theorem folded_nil : Folded [] {} where
  order := rfl
  kept member := by cases member
  source found := by cases found
  named found := by cases found
  consumed found := by cases found
  consumer found := by cases found
  expired found := by cases found
  closed := by
    intro sessionKey
    constructor
    · intro member
      exact absurd member List.not_mem_nil
    · rintro ⟨before, _, _, after, split, -⟩
      simp at split
  keyed member := by cases member

/-- What the operations check before they append a record. -/
def Admissible (state : InboxState) : InboxEvent → Prop
  | .queued messageId .. =>
    state.messages.get? messageId = none ∧ state.consumed.get? messageId = none
  | .consumed messageId sessionKey .. => ∃ message, state.messages.get? messageId = some message ∧
      message.sessionKey = sessionKey ∧ message.expiredAt = none ∧ message.consumedAt = none
  | .expired messageId sessionKey .. => ∃ message, state.messages.get? messageId = some message ∧
      message.sessionKey = sessionKey ∧ message.expiredAt = none
  | .reopened messageId sessionKey _ => ∃ message, state.messages.get? messageId = some message ∧
      message.sessionKey = sessionKey ∧ message.expiredAt = none
  | _ => True

theorem Admissible.keyed {state : InboxState} {event : InboxEvent} {messageId : Text}
    (admissible : Admissible state event) (touches : event.touches? = some messageId) :
    ∃ message, state.messages.get? messageId = some message ∧ message.sessionKey = event.key := by
  cases event with
  | queued => cases touches
  | sessionExpired => cases touches
  | sessionOpened => cases touches
  | consumed messageId' =>
    obtain rfl : messageId' = messageId := Option.some.inj touches
    obtain ⟨message, found, keyed, -⟩ := admissible
    exact ⟨message, found, keyed⟩
  | expired messageId' =>
    obtain rfl : messageId' = messageId := Option.some.inj touches
    obtain ⟨message, found, keyed, -⟩ := admissible
    exact ⟨message, found, keyed⟩
  | reopened messageId' =>
    obtain rfl : messageId' = messageId := Option.some.inj touches
    obtain ⟨message, found, keyed, -⟩ := admissible
    exact ⟨message, found, keyed⟩

/-- The message a record is about, as it leaves it. -/
def after (event : InboxEvent) (message : InboxMessage) : InboxMessage :=
  match event with
  | .consumed _ _ consumedAt consumedBy =>
    { message with consumedAt := some consumedAt, consumedBy := some consumedBy }
  | .expired _ _ expiredAt expiredBy =>
    { message with expiredAt := some expiredAt, expiredBy := some expiredBy }
  | .reopened .. =>
    { message with consumedAt := none, consumedBy := none, expiredAt := none, expiredBy := none }
  | _ => message

theorem closed_append {events : List InboxEvent} {sessionKey : Text} :
    Closed (events ++ [event]) sessionKey ↔
      (∃ expiredAt expiredBy, event = .sessionExpired sessionKey expiredAt expiredBy) ∨
        Closed events sessionKey ∧
          ∀ openedAt openedBy, event ≠ .sessionOpened sessionKey openedAt openedBy := by
  constructor
  · rintro ⟨before, expiredAt, expiredBy, after, split, shut⟩
    rcases List.eq_nil_or_concat after with rfl | ⟨after, last, rfl⟩
    · rw [List.append_inj_right' split rfl |> List.singleton_inj.mp]
      exact .inl ⟨expiredAt, expiredBy, rfl⟩
    · have parts : events ++ [event] =
          (before ++ .sessionExpired sessionKey expiredAt expiredBy :: after) ++ [last] := by
        simpa using split
      obtain ⟨rfl, same⟩ := List.append_inj' parts rfl
      obtain rfl := List.singleton_inj.mp same
      refine .inr ⟨⟨before, expiredAt, expiredBy, after, rfl, ?_⟩, ?_⟩
      · intro openedAt openedBy member
        exact shut openedAt openedBy (by simp [member])
      · rintro openedAt openedBy rfl
        exact shut openedAt openedBy (by simp)
  · rintro (⟨expiredAt, expiredBy, rfl⟩ | ⟨⟨before, expiredAt, expiredBy, after, rfl, shut⟩, other⟩)
    · exact ⟨events, expiredAt, expiredBy, [], rfl, fun _ _ => List.not_mem_nil⟩
    · refine ⟨before, expiredAt, expiredBy, after ++ [event], by simp, ?_⟩
      intro openedAt openedBy member
      rcases List.mem_append.mp member with early | last
      · exact shut openedAt openedBy early
      · exact other openedAt openedBy (List.mem_singleton.mp last).symm

variable {messageId : Text}

theorem expired_append {events : List InboxEvent} :
    Expired (events ++ [event]) messageId ↔ Expired events messageId ∨
      ∃ sessionKey expiredAt expiredBy, event = .expired messageId sessionKey expiredAt expiredBy := by
  constructor
  · rintro ⟨sessionKey, expiredAt, expiredBy, member⟩
    rcases List.mem_append.mp member with early | last
    · exact .inl ⟨sessionKey, expiredAt, expiredBy, early⟩
    · exact .inr ⟨sessionKey, expiredAt, expiredBy, (List.mem_singleton.mp last).symm⟩
  · rintro (⟨sessionKey, expiredAt, expiredBy, member⟩ | ⟨sessionKey, expiredAt, expiredBy, rfl⟩)
    · exact ⟨sessionKey, expiredAt, expiredBy, List.mem_append_left _ member⟩
    · exact ⟨sessionKey, expiredAt, expiredBy, List.mem_append_right _ (List.mem_singleton_self _)⟩

/-- The state after a record about `message`. -/
def touch (state : InboxState) (event : InboxEvent) (messageId : Text) (message : InboxMessage) :
    InboxState :=
  { state with
    consumed := match event with
      | .consumed _ _ consumedAt consumedBy => state.consumed.set messageId (consumedAt, consumedBy)
      | .reopened .. => state.consumed.erase messageId
      | _ => state.consumed,
    messages := state.messages.set messageId (after event message) }

theorem applyEvent_touches {events : List InboxEvent} {state : InboxState}
    (folded : Folded events state) (admissible : Admissible state event)
    (touches : event.touches? = some messageId) :
    ∃ message, state.messages.get? messageId = some message ∧
      applyEvent state event = .ok (touch state event messageId message) := by
  cases event with
  | queued => cases touches
  | sessionExpired => cases touches
  | sessionOpened => cases touches
  | consumed messageId' sessionKey consumedAt consumedBy =>
    obtain rfl : messageId' = messageId := Option.some.inj touches
    obtain ⟨message, found, keyed, -, fresh⟩ := admissible
    have unconsumed : (state.consumed.get? messageId').isSome = false := by
      rw [(folded.consumed found).1, fresh]
      rfl
    refine ⟨message, found, ?_⟩
    simp only [applyEvent, found]
    rw [if_neg (not_not.mpr keyed), if_neg (by simp [unconsumed])]
    rfl
  | expired messageId' sessionKey expiredAt expiredBy =>
    obtain rfl : messageId' = messageId := Option.some.inj touches
    obtain ⟨message, found, keyed, open_⟩ := admissible
    refine ⟨message, found, ?_⟩
    simp only [applyEvent, found]
    rw [if_neg (not_not.mpr keyed), if_neg (by simp [open_])]
    rfl
  | reopened messageId' sessionKey reopenedAt =>
    obtain rfl : messageId' = messageId := Option.some.inj touches
    obtain ⟨message, found, keyed, open_⟩ := admissible
    refine ⟨message, found, ?_⟩
    simp only [applyEvent, found]
    rw [if_neg (not_not.mpr keyed), if_neg (by simp [open_])]
    rfl

theorem after_content (event : InboxEvent) (message : InboxMessage) :
    (after event message).messageId = message.messageId ∧
      (after event message).sessionKey = message.sessionKey ∧
      (after event message).text = message.text ∧
      (after event message).interrupt = message.interrupt ∧
      (after event message).createdAt = message.createdAt := by
  cases event <;> exact ⟨rfl, rfl, rfl, rfl, rfl⟩

theorem Folded.touch {events : List InboxEvent} {state : InboxState} {message : InboxMessage}
    (folded : Folded events state) (admissible : Admissible state event)
    (touches : event.touches? = some messageId)
    (found : state.messages.get? messageId = some message) :
    Folded (events ++ [event]) (touch state event messageId message) := by
  have notQueued : queuedId? event = none := by cases event <;> first | rfl | cases touches
  have notSession : ∀ sessionKey at_ by_, event ≠ .sessionExpired sessionKey at_ by_ ∧
      event ≠ .sessionOpened sessionKey at_ by_ := by
    intro sessionKey at_ by_
    constructor <;> rintro rfl <;> cases touches
  have lookup : ∀ other, (AgentInbox.touch state event messageId message).messages.get? other =
      if messageId = other then some (after event message) else state.messages.get? other :=
    fun other => Dict.get?_set _ _ _ _
  have content := after_content event message
  refine ⟨?_, ?_, ?_, ?_, ?_, ?_, ?_, ?_, ?_⟩
  · have same : (events ++ [event]).filterMap queuedId? = events.filterMap queuedId? := by
      simp [notQueued]
    rw [same, ← folded.order]
    exact Dict.keys_set_of_get? found _
  · intro mid sessionKey text interrupt createdAt member
    have early : InboxEvent.queued mid sessionKey text interrupt createdAt ∈ events := by
      rcases List.mem_append.mp member with early | last
      · exact early
      · rw [← List.mem_singleton.mp last] at notQueued
        cases notQueued
    obtain ⟨message', found', same⟩ := folded.kept early
    rw [lookup]
    split_ifs with here
    · subst here
      obtain rfl : message = message' := Option.some.inj (found.symm.trans found')
      refine ⟨_, rfl, ?_⟩
      rw [content.2.1, content.2.2.1, content.2.2.2.1, content.2.2.2.2]
      exact same
    · exact ⟨message', found', same⟩
  · intro mid message' found'
    rw [lookup] at found'
    refine List.mem_append_left _ ?_
    split_ifs at found' with here
    · obtain rfl : after event message = message' := Option.some.inj found'
      rw [content.2.1, content.2.2.1, content.2.2.2.1, content.2.2.2.2, ← here]
      exact folded.source found
    · exact folded.source found'
  · intro mid message' found'
    rw [lookup] at found'
    split_ifs at found' with here
    · obtain rfl : after event message = message' := Option.some.inj found'
      rw [content.1, ← here]
      exact folded.named found
    · exact folded.named found'
  · intro mid message' found'
    rw [lookup] at found'
    split_ifs at found' with here
    · subst here
      obtain rfl : after event message = message' := Option.some.inj found'
      have agree := folded.consumed found
      cases event with
      | queued => cases touches
      | sessionExpired => cases touches
      | sessionOpened => cases touches
      | consumed => simp [AgentInbox.touch, after]
      | expired => exact agree
      | reopened => simp [AgentInbox.touch, after, Dict.get?_erase]
    · have agree := folded.consumed found'
      cases event with
      | queued => cases touches
      | sessionExpired => cases touches
      | sessionOpened => cases touches
      | consumed => simpa [AgentInbox.touch, Dict.get?_set, here] using agree
      | expired => exact agree
      | reopened => simpa [AgentInbox.touch, Dict.get?_erase, here] using agree
  · intro mid message' runId found' taken
    rw [lookup] at found'
    split_ifs at found' with here
    · subst here
      obtain rfl : after event message = message' := Option.some.inj found'
      cases event with
      | queued => cases touches
      | sessionExpired => cases touches
      | sessionOpened => cases touches
      | consumed mid' sessionKey consumedAt consumedBy =>
        obtain rfl : mid' = messageId := Option.some.inj touches
        obtain rfl : consumedBy = runId := Option.some.inj taken
        obtain ⟨message', found'', keyed, -⟩ := admissible
        obtain rfl : message = message' := Option.some.inj (found.symm.trans found'')
        refine ⟨consumedAt, List.mem_append_right _ ?_⟩
        rw [content.2.1, keyed]
        exact List.mem_singleton_self _
      | expired =>
        obtain ⟨consumedAt, member⟩ := folded.consumer found taken
        exact ⟨consumedAt, List.mem_append_left _ member⟩
      | reopened => cases taken
    · obtain ⟨consumedAt, member⟩ := folded.consumer found' taken
      exact ⟨consumedAt, List.mem_append_left _ member⟩
  · intro mid message' found'
    rw [lookup] at found'
    rw [expired_append]
    split_ifs at found' with here
    · subst here
      obtain rfl : after event message = message' := Option.some.inj found'
      have agree := folded.expired found
      cases event with
      | queued => cases touches
      | sessionExpired => cases touches
      | sessionOpened => cases touches
      | consumed => simpa [after] using agree
      | expired mid' sessionKey expiredAt expiredBy =>
        obtain rfl : mid' = messageId := Option.some.inj touches
        simp [after]
      | reopened mid' sessionKey reopenedAt =>
        obtain rfl : mid' = messageId := Option.some.inj touches
        obtain ⟨message', found'', -, open_⟩ := admissible
        obtain rfl : message = message' := Option.some.inj (found.symm.trans found'')
        rw [open_] at agree
        simpa [after] using agree
    · have agree := folded.expired found'
      have elsewhere : ¬ ∃ sessionKey expiredAt expiredBy,
          event = .expired mid sessionKey expiredAt expiredBy := by
        rintro ⟨_, _, _, rfl⟩
        exact here (Option.some.inj touches).symm
      simpa [elsewhere] using agree
  · intro sessionKey
    rw [closed_append]
    have agree : sessionKey ∈ state.expiredSessions ↔ Closed events sessionKey := folded.closed
    constructor
    · intro member
      exact .inr ⟨agree.mp member, fun at_ by_ => (notSession sessionKey at_ by_).2⟩
    · rintro (⟨at_, by_, same⟩ | ⟨closed, -⟩)
      · exact absurd same (notSession sessionKey at_ by_).1
      · exact agree.mpr closed
  · intro event' mid member touches'
    have keyed : ∃ message', state.messages.get? mid = some message' ∧
        message'.sessionKey = event'.key := by
      rcases List.mem_append.mp member with early | last
      · exact folded.keyed early touches'
      · obtain rfl := List.mem_singleton.mp last
        exact admissible.keyed touches'
    obtain ⟨message', found', keyed⟩ := keyed
    rw [lookup]
    split_ifs with here
    · subst here
      obtain rfl : message = message' := Option.some.inj (found.symm.trans found')
      exact ⟨_, rfl, content.2.1.trans keyed⟩
    · exact ⟨message', found', keyed⟩

theorem Folded.queued {events : List InboxEvent} {state : InboxState}
    {messageId sessionKey text createdAt : Text} {interrupt : Bool} (folded : Folded events state)
    (fresh : state.messages.get? messageId = none) (unused : state.consumed.get? messageId = none) :
    Folded (events ++ [.queued messageId sessionKey text interrupt createdAt])
      { state with
        messages := state.messages.set messageId
          { messageId, sessionKey, text, interrupt, createdAt } } := by
  have lookup : ∀ other message,
      (state.messages.set messageId message).get? other =
        if messageId = other then some message else state.messages.get? other :=
    fun other message => Dict.get?_set _ _ _ _
  have other : ∀ {mid message}, state.messages.get? mid = some message → messageId ≠ mid := by
    rintro mid message found rfl
    rw [fresh] at found
    cases found
  refine ⟨?_, ?_, ?_, ?_, ?_, ?_, ?_, ?_, ?_⟩
  · have one : (events ++ [InboxEvent.queued messageId sessionKey text interrupt createdAt]).filterMap
        queuedId? = events.filterMap queuedId? ++ [messageId] := by
      simp [queuedId?]
    rw [one, ← folded.order]
    exact Dict.keys_set_of_get?_none fresh _
  · intro mid key text' interrupt' createdAt' member
    rw [lookup]
    rcases List.mem_append.mp member with early | last
    · obtain ⟨message, found, same⟩ := folded.kept early
      rw [if_neg (other found)]
      exact ⟨message, found, same⟩
    · cases List.mem_singleton.mp last
      exact ⟨_, if_pos rfl, rfl, rfl, rfl, rfl⟩
  · intro mid message found
    rw [lookup] at found
    split_ifs at found with here
    · cases Option.some.inj found
      subst here
      exact List.mem_append_right _ (List.mem_singleton_self _)
    · exact List.mem_append_left _ (folded.source found)
  · intro mid message found
    rw [lookup] at found
    split_ifs at found with here
    · cases Option.some.inj found
      exact here
    · exact folded.named found
  · intro mid message found
    rw [lookup] at found
    split_ifs at found with here
    · cases Option.some.inj found
      subst here
      simp [unused]
    · exact folded.consumed found
  · intro mid message runId found taken
    rw [lookup] at found
    split_ifs at found with here
    · cases Option.some.inj found
      cases taken
    · obtain ⟨consumedAt, member⟩ := folded.consumer found taken
      exact ⟨consumedAt, List.mem_append_left _ member⟩
  · intro mid message found
    rw [expired_append]
    rw [lookup] at found
    split_ifs at found with here
    · cases Option.some.inj found
      subst here
      have never : ¬ Expired events messageId := by
        rintro ⟨key, expiredAt, expiredBy, member⟩
        obtain ⟨message, found, -⟩ := folded.keyed member rfl
        exact other found rfl
      simp [never]
    · simpa using folded.expired found
  · intro key
    rw [closed_append]
    simpa using folded.closed
  · intro event mid member touches
    have early : event ∈ events := by
      rcases List.mem_append.mp member with early | last
      · exact early
      · rw [List.mem_singleton.mp last] at touches
        cases touches
    obtain ⟨message, found, keyed⟩ := folded.keyed early touches
    rw [lookup, if_neg (other found)]
    exact ⟨message, found, keyed⟩

theorem Folded.session {events : List InboxEvent} {state : InboxState}
    (folded : Folded events state) (touches : event.touches? = none)
    (notQueued : queuedId? event = none) :
    ∃ expiredSessions, applyEvent state event = .ok { state with expiredSessions } ∧
      Folded (events ++ [event]) { state with expiredSessions } := by
  have early : ∀ {event'}, event' ∈ events ++ [event] → event'.touches?.isSome ∨
      (queuedId? event').isSome → event' ∈ events := by
    intro event' member isMessage
    rcases List.mem_append.mp member with early | last
    · exact early
    · rw [List.mem_singleton.mp last, touches, notQueued] at isMessage
      simp at isMessage
  obtain ⟨expiredSessions, applied, closed⟩ : ∃ expiredSessions,
      applyEvent state event = .ok { state with expiredSessions } ∧
      ∀ key, key ∈ expiredSessions ↔ Closed (events ++ [event]) key := by
    cases event with
    | queued => cases notQueued
    | consumed => cases touches
    | expired => cases touches
    | reopened => cases touches
    | sessionExpired sessionKey expiredAt expiredBy =>
      refine ⟨_, rfl, fun key => ?_⟩
      have same : key = sessionKey ↔ sessionKey = key := eq_comm
      rw [closed_append, List.mem_cons, folded.closed, same]
      simp
    | sessionOpened sessionKey openedAt openedBy =>
      refine ⟨_, rfl, fun key => ?_⟩
      have same : key = sessionKey ↔ sessionKey = key := eq_comm
      rw [closed_append, List.mem_filter, folded.closed]
      simp [same]
  refine ⟨expiredSessions, applied, ?_, ?_, fun found =>
    List.mem_append_left _ (folded.source found), folded.named, folded.consumed, ?_, ?_, closed _, ?_⟩
  · rw [List.filterMap_append, folded.order]
    simp [notQueued]
  · intro mid key text interrupt createdAt member
    exact folded.kept (early member (.inr rfl))
  · intro mid message runId found taken
    obtain ⟨consumedAt, member⟩ := folded.consumer found taken
    exact ⟨consumedAt, List.mem_append_left _ member⟩
  · intro mid message found
    rw [expired_append, folded.expired found]
    have elsewhere : ¬ ∃ sessionKey expiredAt expiredBy,
        event = .expired mid sessionKey expiredAt expiredBy := by
      rintro ⟨_, _, _, rfl⟩
      cases touches
    simp [elsewhere]
  · intro event' mid member touches'
    exact folded.keyed (early member (.inl (by rw [touches']; rfl))) touches'

theorem Folded.step {events : List InboxEvent} {state : InboxState} (folded : Folded events state)
    (admissible : Admissible state event) :
    ∃ state', applyEvent state event = .ok state' ∧ Folded (events ++ [event]) state' ∧
      (∀ messageId, event.touches? ≠ some messageId → queuedId? event ≠ some messageId →
        state'.messages.get? messageId = state.messages.get? messageId) ∧
      ∀ messageId, event.touches? = some messageId → ∃ message,
        state.messages.get? messageId = some message ∧
          state'.messages.get? messageId = some (after event message) := by
  cases touches : event.touches? with
  | some messageId =>
    obtain ⟨message, found, applied⟩ := applyEvent_touches folded admissible touches
    refine ⟨_, applied, folded.touch admissible touches found, ?_, ?_⟩
    · intro other different _
      exact Dict.get?_set_of_ne _ _ fun same => different (congrArg some same)
    · intro messageId' same
      obtain rfl : messageId = messageId' := Option.some.inj same
      exact ⟨message, found, Dict.get?_set_self _ _ _⟩
  | none =>
    cases queued : queuedId? event with
    | none =>
      obtain ⟨expiredSessions, applied, folded'⟩ := folded.session touches queued
      exact ⟨_, applied, folded', fun _ _ _ => rfl, fun _ absurd => by cases absurd⟩
    | some messageId =>
      cases event with
      | queued messageId' sessionKey text interrupt createdAt =>
        obtain rfl : messageId' = messageId := Option.some.inj queued
        obtain ⟨fresh, unused⟩ := admissible
        refine ⟨_, ?_, folded.queued fresh unused, ?_, fun _ absurd => by cases absurd⟩
        · simp only [applyEvent, fresh]
        · intro other _ different
          exact Dict.get?_set_of_ne _ _ fun same => different (congrArg some same)
      | _ => cases queued

theorem Admissible.frame {state state' : InboxState} (admissible : Admissible state event)
    (old : queuedId? event = none)
    (same : ∀ messageId, event.touches? = some messageId →
      state'.messages.get? messageId = state.messages.get? messageId) :
    Admissible state' event := by
  cases event with
  | queued => cases old
  | sessionExpired => trivial
  | sessionOpened => trivial
  | consumed messageId => simpa [Admissible, same messageId rfl] using admissible
  | expired messageId => simpa [Admissible, same messageId rfl] using admissible
  | reopened messageId => simpa [Admissible, same messageId rfl] using admissible

theorem Folded.steps {events more : List InboxEvent} {state : InboxState}
    (folded : Folded events state) (admissible : ∀ event ∈ more, Admissible state event)
    (old : ∀ event ∈ more, queuedId? event = none)
    (apart : more.Pairwise fun e f => ∀ messageId, e.touches? = some messageId →
      f.touches? ≠ some messageId) :
    ∃ state', more.foldlM applyEvent state = .ok state' ∧ Folded (events ++ more) state' ∧
      (∀ messageId, (∀ event ∈ more, event.touches? ≠ some messageId) →
        state'.messages.get? messageId = state.messages.get? messageId) ∧
      ∀ event ∈ more, ∀ messageId, event.touches? = some messageId → ∃ message,
        state.messages.get? messageId = some message ∧
          state'.messages.get? messageId = some (after event message) := by
  induction more generalizing events state with
  | nil => exact ⟨state, rfl, by simpa using folded, fun _ _ => rfl, fun _ absurd => by cases absurd⟩
  | cons event more ih =>
    obtain ⟨away, apart'⟩ := List.pairwise_cons.mp apart
    obtain ⟨mid, applied, foldedMid, frame, touched⟩ :=
      folded.step (admissible event List.mem_cons_self)
    have notQueued : ∀ messageId, queuedId? event ≠ some messageId := by
      intro messageId queued
      rw [old event List.mem_cons_self] at queued
      cases queued
    have kept : ∀ later ∈ more, ∀ messageId, later.touches? = some messageId →
        mid.messages.get? messageId = state.messages.get? messageId := by
      intro later member messageId touches
      exact frame messageId (fun same => away later member messageId same touches)
        (notQueued messageId)
    obtain ⟨state', rest, folded', frame', touched'⟩ := ih foldedMid
      (fun later member => (admissible later (List.mem_cons_of_mem event member)).frame
        (old later (List.mem_cons_of_mem event member)) (kept later member))
      (fun later member => old later (List.mem_cons_of_mem event member)) apart'
    refine ⟨state', foldlM_cons_eq_ok.mpr ⟨mid, applied, rest⟩, by simpa using folded', ?_, ?_⟩
    · intro messageId untouched
      rw [frame' messageId fun later member => untouched later (List.mem_cons_of_mem event member)]
      exact frame messageId (untouched event List.mem_cons_self) (notQueued messageId)
    · intro e member messageId touches
      rcases List.mem_cons.mp member with rfl | later
      · obtain ⟨message, found, left⟩ := touched messageId touches
        refine ⟨message, found, ?_⟩
        rw [frame' messageId fun f inMore => away f inMore messageId touches]
        exact left
      · obtain ⟨message, found, left⟩ := touched' e later messageId touches
        exact ⟨message, (kept e later messageId touches).symm.trans found, left⟩

/-- Records an operation decides on in one state: a new message alone, or any
    number about different messages. -/
structure Appends (state : InboxState) (more : List InboxEvent) : Prop where
  admissible : ∀ event ∈ more, Admissible state event
  apart : more.length ≤ 1 ∨ (∀ event ∈ more, queuedId? event = none) ∧
    more.Pairwise fun e f => ∀ messageId, e.touches? = some messageId →
      f.touches? ≠ some messageId

theorem Appends.nil (state : InboxState) : Appends state [] where
  admissible event absurd := by cases absurd
  apart := .inl (Nat.zero_le 1)

theorem survivors_sublist (killedAfter : Option Nat) (more : List InboxEvent) :
    (survivors killedAfter more).Sublist more := by
  cases killedAfter with
  | none => exact List.Sublist.refl more
  | some n => exact List.take_sublist n more

theorem Appends.sublist {state : InboxState} {more some_ : List InboxEvent}
    (appends : Appends state more) (sub : some_.Sublist more) : Appends state some_ := by
  refine ⟨fun event member => appends.admissible event (sub.subset member), ?_⟩
  rcases appends.apart with short | ⟨old, apart⟩
  · exact .inl (sub.length_le.trans short)
  · exact .inr ⟨fun event member => old event (sub.subset member), apart.sublist sub⟩

theorem Folded.appends {events more : List InboxEvent} {state : InboxState}
    (folded : Folded events state) (appends : Appends state more) :
    ∃ state', more.foldlM applyEvent state = .ok state' ∧ Folded (events ++ more) state' ∧
      (∀ messageId, (∀ event ∈ more, event.touches? ≠ some messageId ∧
        queuedId? event ≠ some messageId) →
          state'.messages.get? messageId = state.messages.get? messageId) ∧
      ∀ event ∈ more, ∀ messageId, event.touches? = some messageId → ∃ message,
        state.messages.get? messageId = some message ∧
          state'.messages.get? messageId = some (after event message) := by
  rcases appends.apart with short | ⟨old, apart⟩
  · cases more with
    | nil => exact ⟨state, rfl, by simpa using folded, fun _ _ => rfl, fun _ absurd => by cases absurd⟩
    | cons event rest =>
      obtain rfl : rest = [] := by simpa using short
      obtain ⟨state', applied, folded', frame, touched⟩ :=
        folded.step (appends.admissible event List.mem_cons_self)
      refine ⟨state', foldlM_cons_eq_ok.mpr ⟨state', applied, rfl⟩, folded', ?_, ?_⟩
      · intro messageId away
        obtain ⟨untouched, notQueued⟩ := away event List.mem_cons_self
        exact frame messageId untouched notQueued
      · intro e member messageId touches
        obtain rfl := List.mem_singleton.mp member
        exact touched messageId touches
  · obtain ⟨state', applied, folded', frame, touched⟩ :=
      folded.steps appends.admissible old apart
    exact ⟨state', applied, folded',
      fun messageId away => frame messageId fun event member => (away event member).1, touched⟩

theorem requireToken_eq_ok {value token : Text} (h : requireToken value = .ok token) :
    token = stripText value ∧ stripText token ≠ [] := by
  unfold requireToken at h
  split_ifs at h with bad
  obtain rfl := Except.ok.inj h
  exact ⟨rfl, stripText_stripText_ne_nil fun blank => bad (.inl blank)⟩

theorem validateText_eq_ok {text body : Text} (h : validateText text = .ok body) :
    body = text ∧ stripText body ≠ [] := by
  unfold validateText at h
  split_ifs at h with bad long
  obtain rfl := Except.ok.inj h
  exact ⟨rfl, fun blank => bad (.inl blank)⟩

section

variable {events more : List InboxEvent} {state : InboxState}

theorem enqueue_eq_ok {sessionKey text messageId createdAt : Text} {interrupt : Bool}
    (h : enqueue state sessionKey text interrupt messageId createdAt = .ok more) :
    more = [.queued messageId (stripText sessionKey) text interrupt createdAt] ∧
      stripText (stripText sessionKey) ≠ [] ∧ stripText text ≠ [] ∧
      state.messages.get? messageId = none ∧ state.consumed.get? messageId = none ∧
      stripText sessionKey ∉ state.expiredSessions := by
  obtain ⟨key, tokened, checked⟩ := bind_eq_ok.mp h
  obtain ⟨body, bodied, decided⟩ := bind_eq_ok.mp checked
  obtain ⟨rfl, filled⟩ := requireToken_eq_ok tokened
  obtain ⟨rfl, filled'⟩ := validateText_eq_ok bodied
  clear h checked
  split_ifs at decided with collision shut full
  obtain rfl := Except.ok.inj decided
  simp only [Bool.or_eq_true, not_or, Option.not_isSome_iff_eq_none] at collision
  exact ⟨rfl, filled, filled', collision.1, collision.2, shut⟩

theorem consume_eq_ok {messageId sessionKey consumedBy consumedAt : Text}
    (h : consume state messageId sessionKey consumedBy consumedAt = .ok more) :
    more = [] ∨ more = [.consumed (stripText messageId) (stripText sessionKey) consumedAt
        (stripText consumedBy)] ∧ stripText (stripText consumedBy) ≠ [] ∧
      ∃ message, state.messages.get? (stripText messageId) = some message ∧
        message.sessionKey = stripText sessionKey ∧ message.expiredAt = none ∧
        message.consumedAt = none := by
  obtain ⟨mid, named, checked⟩ := bind_eq_ok.mp h
  obtain ⟨key, keyed, checked'⟩ := bind_eq_ok.mp checked
  obtain ⟨actor, acted, decided⟩ := bind_eq_ok.mp checked'
  obtain ⟨rfl, -⟩ := requireToken_eq_ok named
  obtain ⟨rfl, -⟩ := requireToken_eq_ok keyed
  obtain ⟨rfl, filled⟩ := requireToken_eq_ok acted
  clear h checked checked'
  cases found : state.messages.get? (stripText messageId) with
  | none =>
    rw [found] at decided
    cases decided
  | some message =>
    rw [found] at decided
    dsimp only at decided
    split_ifs at decided with other closed already
    · exact .inl (Except.ok.inj decided).symm
    · refine .inr ⟨(Except.ok.inj decided).symm, filled, message, rfl, not_not.mp other, ?_, ?_⟩
      · simpa using closed
      · simpa using already

theorem Folded.nodup (folded : Folded events state) :
    state.messages.values.Pairwise fun m n => m.messageId ≠ n.messageId := by
  have ids : state.messages.values.map InboxMessage.messageId = state.messages.keys :=
    Dict.map_values_eq_keys fun _ _ => folded.named
  have distinct : (state.messages.values.map InboxMessage.messageId).Nodup := by
    rw [ids]
    exact state.messages.nodup
  exact List.pairwise_map.mp distinct

theorem Folded.get? (folded : Folded events state) {message : InboxMessage}
    (member : message ∈ state.messages.values) :
    state.messages.get? message.messageId = some message := by
  obtain ⟨messageId, found⟩ := Dict.mem_values_iff.mp member
  rw [folded.named found]
  exact found

theorem expire_eq_ok {sessionKey expiredBy expiredAt : Text}
    (h : expire state sessionKey expiredBy expiredAt = .ok more) :
    stripText (stripText sessionKey) ≠ [] ∧ stripText (stripText expiredBy) ≠ [] ∧
      ∃ (leftovers : List InboxMessage) (closing : List InboxEvent), leftovers.Sublist state.messages.values ∧
        (∀ message ∈ leftovers, message.sessionKey = stripText sessionKey ∧
          message.expiredAt = none) ∧
        (closing = [] ∨
          closing = [.sessionExpired (stripText sessionKey) expiredAt (stripText expiredBy)]) ∧
        more = leftovers.map (fun message => .expired message.messageId (stripText sessionKey)
          expiredAt (stripText expiredBy)) ++ closing := by
  obtain ⟨key, keyed, checked⟩ := bind_eq_ok.mp h
  obtain ⟨actor, acted, decided⟩ := bind_eq_ok.mp checked
  obtain ⟨rfl, filled⟩ := requireToken_eq_ok keyed
  obtain ⟨rfl, filled'⟩ := requireToken_eq_ok acted
  refine ⟨filled, filled', _, _, List.filter_sublist, ?_, ?_, (Except.ok.inj decided).symm⟩
  · intro message member
    have checked := (List.mem_filter.mp member).2
    simp only [Bool.and_eq_true, decide_eq_true_eq, Option.isNone_iff_eq_none] at checked
    exact checked.1
  · split_ifs
    · exact .inl rfl
    · exact .inr rfl

theorem reopen_eq_ok {sessionKey reopenedAt : Text} {committed : List Text}
    (h : reopen state sessionKey reopenedAt committed = .ok more) :
    ∃ uncommitted : List InboxMessage, uncommitted.Sublist state.messages.values ∧
      (∀ message, message ∈ uncommitted ↔ message ∈ state.messages.values ∧
        message.sessionKey = stripText sessionKey ∧ message.expiredAt = none ∧
        message.consumedAt.isSome ∧
        message.consumedBy.getD [] ∉ (committed.map stripText).filter (· ≠ [])) ∧
      more = uncommitted.map fun message =>
        .reopened message.messageId (stripText sessionKey) reopenedAt := by
  obtain ⟨key, keyed, decided⟩ := bind_eq_ok.mp h
  obtain ⟨rfl, -⟩ := requireToken_eq_ok keyed
  refine ⟨_, List.filter_sublist, fun message => ?_, (Except.ok.inj decided).symm⟩
  rw [List.mem_filter]
  simp [and_assoc]

theorem Folded.appends_map (folded : Folded events state) {messages : List InboxMessage}
    (sub : messages.Sublist state.messages.values) {record : InboxMessage → InboxEvent}
    (touches : ∀ message, (record message).touches? = some message.messageId)
    (admissible : ∀ message ∈ messages, Admissible state (record message))
    {closing : List InboxEvent} (single : closing.length ≤ 1)
    (last : ∀ event ∈ closing, event.touches? = none ∧ queuedId? event = none ∧
      Admissible state event) :
    Appends state (messages.map record ++ closing) := by
  have old : ∀ message, queuedId? (record message) = none := by
    intro message
    have here := touches message
    cases event : record message with
    | queued => rw [event] at here; cases here
    | _ => rfl
  refine ⟨?_, .inr ⟨?_, ?_⟩⟩
  · intro event member
    rcases List.mem_append.mp member with inside | closed
    · obtain ⟨message, member', rfl⟩ := List.mem_map.mp inside
      exact admissible message member'
    · exact (last event closed).2.2
  · intro event member
    rcases List.mem_append.mp member with inside | closed
    · obtain ⟨message, -, rfl⟩ := List.mem_map.mp inside
      exact old message
    · exact (last event closed).2.1
  · refine List.pairwise_append.mpr ⟨?_, ?_, ?_⟩
    · refine List.pairwise_map.mpr ((folded.nodup.sublist sub).imp ?_)
      intro m n different messageId same same'
      rw [touches] at same same'
      exact different (Option.some.inj (same.trans same'.symm))
    · match closing, single with
      | [], _ => exact List.Pairwise.nil
      | [event], _ => exact List.pairwise_singleton _ event
    · intro e _ f closed messageId _ same
      rw [(last f closed).1] at same
      cases same

theorem Folded.records (folded : Folded events state) (clean : ∀ event ∈ events, event.Clean)
    {rows : SessionRows} {operation : Operation}
    (unbroken : ∀ t ∈ operation.written, t.any isRawBreak = false)
    (h : operation.records state rows = .ok more) :
    Appends state more ∧ ∀ event ∈ more, event.Clean := by
  have known : ∀ message ∈ state.messages.values,
      AgentInbox.Clean message.messageId ∧ AgentInbox.Clean message.sessionKey := by
    intro message member
    have queued := clean _ (folded.source (folded.get? member))
    simp only [InboxEvent.Clean, InboxEvent.texts, List.forall_mem_cons] at queued
    exact ⟨queued.2.1, queued.2.2.1⟩
  cases operation with
  | enqueue sessionKey text interrupt messageId createdAt =>
    simp only [Operation.written, List.forall_mem_cons] at unbroken
    obtain ⟨rfl, filled, filled', fresh, unused, -⟩ := enqueue_eq_ok h
    refine ⟨⟨?_, .inl le_rfl⟩, ?_⟩
    · intro event member
      obtain rfl := List.mem_singleton.mp member
      exact ⟨fresh, unused⟩
    · intro event member
      obtain rfl := List.mem_singleton.mp member
      simp only [InboxEvent.Clean, InboxEvent.texts, List.forall_mem_cons]
      exact ⟨clean_token createdAt, clean_token messageId, ⟨filled, unbroken.1⟩, ⟨filled', unbroken.2.1⟩,
        fun t absurd => by cases absurd⟩
  | consume messageId sessionKey consumedBy consumedAt =>
    simp only [Operation.written, List.forall_mem_cons] at unbroken
    rcases consume_eq_ok h with rfl | ⟨rfl, filled, message, found, keyed, open_, fresh⟩
    · exact ⟨Appends.nil state, fun event absurd => by cases absurd⟩
    · have member := Dict.mem_values_iff.mpr ⟨_, found⟩
      refine ⟨⟨?_, .inl le_rfl⟩, ?_⟩
      · intro event inside
        obtain rfl := List.mem_singleton.mp inside
        exact ⟨message, found, keyed, open_, fresh⟩
      · intro event inside
        obtain rfl := List.mem_singleton.mp inside
        simp only [InboxEvent.Clean, InboxEvent.texts, List.forall_mem_cons]
        rw [← keyed, ← folded.named found]
        exact ⟨clean_token consumedAt, ⟨filled, unbroken.1⟩, (known message member).1,
          (known message member).2, fun t absurd => by cases absurd⟩
  | expire sessionKey expiredBy expiredAt =>
    simp only [Operation.written, List.forall_mem_cons] at unbroken
    obtain ⟨filled, filled', leftovers, closing, sub, checked, closes, rfl⟩ := expire_eq_ok h
    refine ⟨folded.appends_map sub (fun _ => rfl) ?_ ?_ ?_, ?_⟩
    · intro message member
      exact ⟨message, folded.get? (sub.subset member), checked message member⟩
    · rcases closes with rfl | rfl
      · exact Nat.zero_le 1
      · exact le_rfl
    · intro event member
      rcases closes with rfl | rfl
      · cases member
      · obtain rfl := List.mem_singleton.mp member
        exact ⟨rfl, rfl, trivial⟩
    · intro event member
      rcases List.mem_append.mp member with inside | closed
      · obtain ⟨message, member', rfl⟩ := List.mem_map.mp inside
        simp only [InboxEvent.Clean, InboxEvent.texts, List.forall_mem_cons]
        exact ⟨clean_token expiredAt, ⟨filled', unbroken.2.1⟩, (known message (sub.subset member')).1,
          ⟨filled, unbroken.1⟩, fun t absurd => by cases absurd⟩
      · rcases closes with rfl | rfl
        · cases closed
        · obtain rfl := List.mem_singleton.mp closed
          simp only [InboxEvent.Clean, InboxEvent.texts, List.forall_mem_cons]
          exact ⟨clean_token expiredAt, ⟨filled', unbroken.2.1⟩, ⟨filled, unbroken.1⟩,
            fun t absurd => by cases absurd⟩
  | reopen sessionKey reopenedAt =>
    obtain ⟨uncommitted, sub, checked, rfl⟩ := reopen_eq_ok h
    have none_closing : uncommitted.map (fun message => InboxEvent.reopened message.messageId
        (stripText sessionKey) reopenedAt.text) = uncommitted.map (fun message =>
        InboxEvent.reopened message.messageId (stripText sessionKey) reopenedAt.text) ++ [] :=
      (List.append_nil _).symm
    rw [none_closing]
    refine ⟨folded.appends_map sub (fun _ => rfl) ?_ (Nat.zero_le 1)
      (fun event absurd => by cases absurd), ?_⟩
    · intro message member
      obtain ⟨-, keyed, open_, -⟩ := (checked message).mp member
      exact ⟨message, folded.get? (sub.subset member), keyed, open_⟩
    · intro event member
      rw [List.append_nil] at member
      obtain ⟨message, member', rfl⟩ := List.mem_map.mp member
      obtain ⟨inside, keyed, -⟩ := (checked message).mp member'
      simp only [InboxEvent.Clean, InboxEvent.texts, List.forall_mem_cons]
      rw [← keyed]
      exact ⟨(known message inside).1, clean_token reopenedAt, (known message inside).2,
        fun t absurd => by cases absurd⟩
  | openSession sessionKey runId openedAt =>
    simp only [Operation.written, List.forall_mem_cons] at unbroken
    obtain rfl := Except.ok.inj h
    unfold AgentInbox.openSession
    split_ifs with blank shut
    · exact ⟨Appends.nil state, fun event absurd => by cases absurd⟩
    · obtain ⟨before, expiredAt, expiredBy, after, split, -⟩ := folded.closed.mp shut
      have closed := clean (.sessionExpired (stripText sessionKey) expiredAt expiredBy)
        (by rw [split]; simp)
      simp only [InboxEvent.Clean, InboxEvent.texts, List.forall_mem_cons] at closed
      refine ⟨⟨?_, .inl le_rfl⟩, ?_⟩
      · intro event member
        obtain rfl := List.mem_singleton.mp member
        trivial
      · intro event member
        obtain rfl := List.mem_singleton.mp member
        simp only [InboxEvent.Clean, InboxEvent.texts, List.forall_mem_cons]
        exact ⟨clean_token openedAt, ⟨stripText_stripText_ne_nil fun blank' => blank (.inr blank'),
          unbroken.1⟩, closed.2.2.1, fun t absurd => by cases absurd⟩
    · exact ⟨Appends.nil state, fun event absurd => by cases absurd⟩

end

end AutoTrade.AgentInbox
