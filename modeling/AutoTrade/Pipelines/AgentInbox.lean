import AutoTrade.Common.JsonLines
import AutoTrade.Misc.Dict

/-!
# The agent inbox

Users enqueue messages to the current research session, its runs consume them.
The inbox is an append-only log of events, one JSON object a line; every
operation takes the inbox lock, folds the log into a state and appends what it
decides. A message consumed by a run that never landed in the ledger is reopened
when the next run binds the session.
-/

namespace AutoTrade.AgentInbox

open Json JsonLines

def inboxMaxTextChars : Nat := 8192

def inboxMaxPending : Nat := 32

/-- Durable inbox contract violations. -/
inductive InboxError where
  | corrupt
  | incompatible
  | duplicateMessageId
  | unknownMessage
  | sessionMismatch
  | textRequired
  | textTooLong
  | tokenRequired
  | messageIdCollision
  | sessionExpired
  | pendingCapReached
  | otherSession
  | messageExpired
  deriving DecidableEq

structure InboxMessage where
  messageId : Text
  sessionKey : Text
  text : Text
  interrupt : Bool
  createdAt : Text
  consumedAt : Option Text := none
  consumedBy : Option Text := none
  expiredAt : Option Text := none
  expiredBy : Option Text := none
  deriving DecidableEq

/-- A record of the log. -/
inductive InboxEvent where
  | queued (messageId sessionKey text : Text) (interrupt : Bool) (createdAt : Text)
  | consumed (messageId sessionKey consumedAt consumedBy : Text)
  | expired (messageId sessionKey expiredAt expiredBy : Text)
  | reopened (messageId sessionKey reopenedAt : Text)
  | sessionExpired (sessionKey expiredAt expiredBy : Text)
  | sessionOpened (sessionKey openedAt openedBy : Text)
  deriving DecidableEq

/-- `INBOX_SCHEMA_VERSION`. -/
def schemaVersion : JsonNumber := ⟨['1'], by decide, List.all_eq_true.mp (by decide)⟩

/-- The record as the log holds it, its keys sorted. -/
def InboxEvent.toRecord : InboxEvent → JsonObject
  | .queued messageId sessionKey text interrupt createdAt =>
    [("consumed_at".toList, null), ("consumed_by".toList, null),
      ("created_at".toList, str createdAt), ("event".toList, str "queued".toList),
      ("interrupt".toList, Json.bool interrupt), ("message_id".toList, str messageId),
      ("schema_version".toList, num schemaVersion), ("session_key".toList, str sessionKey),
      ("text".toList, str text)]
  | .consumed messageId sessionKey consumedAt consumedBy =>
    [("consumed_at".toList, str consumedAt), ("consumed_by".toList, str consumedBy),
      ("event".toList, str "consumed".toList), ("message_id".toList, str messageId),
      ("schema_version".toList, num schemaVersion), ("session_key".toList, str sessionKey)]
  | .expired messageId sessionKey expiredAt expiredBy =>
    [("event".toList, str "expired".toList), ("expired_at".toList, str expiredAt),
      ("expired_by".toList, str expiredBy), ("message_id".toList, str messageId),
      ("schema_version".toList, num schemaVersion), ("session_key".toList, str sessionKey)]
  | .reopened messageId sessionKey reopenedAt =>
    [("event".toList, str "reopened".toList), ("message_id".toList, str messageId),
      ("reopened_at".toList, str reopenedAt), ("schema_version".toList, num schemaVersion),
      ("session_key".toList, str sessionKey)]
  | .sessionExpired sessionKey expiredAt expiredBy =>
    [("event".toList, str "session_expired".toList), ("expired_at".toList, str expiredAt),
      ("expired_by".toList, str expiredBy), ("schema_version".toList, num schemaVersion),
      ("session_key".toList, str sessionKey)]
  | .sessionOpened sessionKey openedAt openedBy =>
    [("event".toList, str "session_opened".toList), ("opened_at".toList, str openedAt),
      ("opened_by".toList, str openedBy), ("schema_version".toList, num schemaVersion),
      ("session_key".toList, str sessionKey)]

/-- A string under `key`. -/
def textField (payload : JsonObject) (key : String) : Except InboxError Text :=
  match (obj payload).get? key.toList with
  | some (str value) => .ok value
  | _ => .error .corrupt

/-- A non-empty string under `key`. -/
def stampField (payload : JsonObject) (key : String) : Except InboxError Text := do
  let value ← textField payload key
  if value = [] then .error .corrupt else .ok value

/-- A string under `key` that is not blank. -/
def tokenField (payload : JsonObject) (key : String) : Except InboxError Text := do
  let value ← textField payload key
  if stripText value = [] then .error .corrupt else .ok value

def boolField (payload : JsonObject) (key : String) : Except InboxError Bool :=
  match (obj payload).get? key.toList with
  | some (Json.bool value) => .ok value
  | _ => .error .corrupt

/-- The version stamp is the int `INBOX_SCHEMA_VERSION`. -/
def versioned (payload : JsonObject) : Bool :=
  match (obj payload).get? "schema_version".toList with
  | some (num version) => version.text = schemaVersion.text
  | _ => false

/-- `_parse_record`. -/
def parseRecord (payload : JsonObject) : Except InboxError InboxEvent := do
  unless versioned payload do throw .incompatible
  let event ← textField payload "event"
  unless event ∈ ["queued".toList, "consumed".toList, "expired".toList, "reopened".toList,
      "session_expired".toList, "session_opened".toList] do throw .corrupt
  let sessionKey ← tokenField payload "session_key"
  if event = "session_expired".toList then do
    let expiredAt ← stampField payload "expired_at"
    let expiredBy ← tokenField payload "expired_by"
    pure (.sessionExpired sessionKey expiredAt expiredBy)
  else if event = "session_opened".toList then do
    let openedAt ← stampField payload "opened_at"
    let openedBy ← tokenField payload "opened_by"
    pure (.sessionOpened sessionKey openedAt openedBy)
  else do
    let messageId ← tokenField payload "message_id"
    if event = "queued".toList then do
      let interrupt ← boolField payload "interrupt"
      let text ← textField payload "text"
      let createdAt ← stampField payload "created_at"
      pure (.queued messageId sessionKey text interrupt createdAt)
    else if event = "expired".toList then do
      let expiredAt ← stampField payload "expired_at"
      let expiredBy ← tokenField payload "expired_by"
      pure (.expired messageId sessionKey expiredAt expiredBy)
    else if event = "reopened".toList then do
      let reopenedAt ← stampField payload "reopened_at"
      pure (.reopened messageId sessionKey reopenedAt)
    else do
      let consumedAt ← stampField payload "consumed_at"
      let consumedBy ← tokenField payload "consumed_by"
      pure (.consumed messageId sessionKey consumedAt consumedBy)

/-- `_InboxState`. -/
structure InboxState where
  messages : Dict Text InboxMessage := .empty
  consumed : Dict Text (Text × Text) := .empty
  expiredSessions : List Text := []

/-- What one record does to the state `_load_state` builds. -/
def applyEvent (state : InboxState) : InboxEvent → Except InboxError InboxState
  | .sessionExpired sessionKey _ _ =>
    .ok { state with expiredSessions := sessionKey :: state.expiredSessions }
  | .sessionOpened sessionKey _ _ =>
    .ok { state with expiredSessions := state.expiredSessions.filter (· ≠ sessionKey) }
  | .queued messageId sessionKey text interrupt createdAt =>
    match state.messages.get? messageId with
    | some _ => .error .duplicateMessageId
    | none => .ok { state with
        messages := state.messages.set messageId
          { messageId, sessionKey, text, interrupt, createdAt } }
  | .reopened messageId sessionKey _ =>
    match state.messages.get? messageId with
    | none => .error .unknownMessage
    | some queued =>
      if queued.sessionKey ≠ sessionKey then .error .sessionMismatch
      else if queued.expiredAt.isSome then .ok state
      else .ok { state with
        consumed := state.consumed.erase messageId,
        messages := state.messages.set messageId
          { queued with
            consumedAt := none, consumedBy := none, expiredAt := none, expiredBy := none } }
  | .expired messageId sessionKey expiredAt expiredBy =>
    match state.messages.get? messageId with
    | none => .error .unknownMessage
    | some queued =>
      if queued.sessionKey ≠ sessionKey then .error .sessionMismatch
      else if queued.expiredAt.isSome then .ok state
      else .ok { state with
        messages := state.messages.set messageId
          { queued with expiredAt := some expiredAt, expiredBy := some expiredBy } }
  | .consumed messageId sessionKey consumedAt consumedBy =>
    match state.messages.get? messageId with
    | none => .error .unknownMessage
    | some queued =>
      if queued.sessionKey ≠ sessionKey then .error .sessionMismatch
      else if (state.consumed.get? messageId).isSome then .ok state
      else .ok { state with
        consumed := state.consumed.set messageId (consumedAt, consumedBy),
        messages := state.messages.set messageId
          { queued with consumedAt := some consumedAt, consumedBy := some consumedBy } }

/-- `_load_state`. A file that does not exist reads as an empty one. -/
def loadState (file : Text) : Except InboxError InboxState :=
  foldLines strippedReader .corrupt (fun state payload => do
    let event ← parseRecord payload
    applyEvent state event) {} file

/-! ## Operations

Each decides, on the state it loads under the lock, the records it appends. -/

/-- `_require_token`. -/
def requireToken (value : Text) : Except InboxError Text :=
  if stripText value = [] ∨ '\x00' ∈ value then .error .tokenRequired
  else .ok (stripText value)

/-- `_validate_text`. -/
def validateText (text : Text) : Except InboxError Text :=
  if stripText text = [] ∨ '\x00' ∈ text then .error .textRequired
  else if text.length > inboxMaxTextChars then .error .textTooLong
  else .ok text

/-- Neither consumed nor expired. -/
def InboxMessage.unconsumed (message : InboxMessage) : Bool :=
  message.consumedAt.isNone && message.expiredAt.isNone

/-- `enqueue_inbox_message`. -/
def enqueue (state : InboxState) (sessionKey text : Text) (interrupt : Bool)
    (messageId createdAt : Text) : Except InboxError (List InboxEvent) := do
  let key ← requireToken sessionKey
  let body ← validateText text
  if (state.messages.get? messageId).isSome || (state.consumed.get? messageId).isSome then
    .error .messageIdCollision
  else if key ∈ state.expiredSessions then .error .sessionExpired
  else if (state.messages.values.filter InboxMessage.unconsumed).length ≥ inboxMaxPending then
    .error .pendingCapReached
  else .ok [.queued messageId key body interrupt createdAt]

/-- `consume_inbox_message`; a message consumed already is left as it is. -/
def consume (state : InboxState) (messageId sessionKey consumedBy consumedAt : Text) :
    Except InboxError (List InboxEvent) := do
  let mid ← requireToken messageId
  let key ← requireToken sessionKey
  let actor ← requireToken consumedBy
  match state.messages.get? mid with
  | none => .error .unknownMessage
  | some message =>
    if message.sessionKey ≠ key then .error .otherSession
    else if message.expiredAt.isSome then .error .messageExpired
    else if message.consumedAt.isSome then .ok []
    else .ok [.consumed mid key consumedAt actor]

/-- `expire_session_inbox`: everything but what the run itself consumed. -/
def expire (state : InboxState) (sessionKey expiredBy expiredAt : Text) :
    Except InboxError (List InboxEvent) := do
  let key ← requireToken sessionKey
  let actor ← requireToken expiredBy
  let leftovers := state.messages.values.filter fun message =>
    message.sessionKey = key && message.expiredAt.isNone &&
      !(message.consumedAt.isSome && message.consumedBy = some actor)
  let closing := if key ∈ state.expiredSessions then []
    else [InboxEvent.sessionExpired key expiredAt actor]
  return leftovers.map (fun message => .expired message.messageId key expiredAt actor) ++ closing

/-- `reopen_uncommitted_inbox`: messages consumed only by runs that never landed
    in the ledger. -/
def reopen (state : InboxState) (sessionKey reopenedAt : Text) (committedRunIds : List Text) :
    Except InboxError (List InboxEvent) := do
  let key ← requireToken sessionKey
  let committed := (committedRunIds.map stripText).filter (· ≠ [])
  let uncommitted := state.messages.values.filter fun message =>
    message.sessionKey = key && message.expiredAt.isNone && message.consumedAt.isSome &&
      message.consumedBy.getD [] ∉ committed
  return uncommitted.map fun message => .reopened message.messageId key reopenedAt

/-- What `bind_session_inbox` appends once it has reopened the session. -/
def openSession (state : InboxState) (sessionKey runId openedAt : Text) : List InboxEvent :=
  if stripText sessionKey = [] ∨ stripText runId = [] then []
  else if stripText sessionKey ∈ state.expiredSessions then
    [.sessionOpened (stripText sessionKey) openedAt (stripText runId)]
  else []

/-- The log with records appended. -/
def appendRecords (file : Text) (events : List InboxEvent) : Text :=
  file ++ dumpLines (events.map InboxEvent.toRecord)

/-- `bind_session_inbox`, up to the runner hook it returns. -/
def bindSessionInbox (file sessionKey runId reopenedAt openedAt : Text)
    (committedRunIds : List Text) : Except InboxError Text := do
  if stripText sessionKey = [] ∨ stripText runId = [] then return file
  let reopened ← reopen (← loadState file) (stripText sessionKey) reopenedAt committedRunIds
  let file := appendRecords file reopened
  return appendRecords file (openSession (← loadState file) sessionKey runId openedAt)

/-- `list_unconsumed_messages`. -/
def listUnconsumed (file sessionKey : Text) : Except InboxError (List InboxMessage) := do
  let key ← requireToken sessionKey
  let state ← loadState file
  return state.messages.values.filter fun message =>
    message.sessionKey = key && message.unconsumed

/-! ## Runs

The inbox beside the ledger its runs land in. An operation may be killed after
any number of the records it appends; a session is bound by reopening it and
then opening it, two steps under the lock. -/

inductive Operation where
  | enqueue (sessionKey text : Text) (interrupt : Bool) (messageId createdAt : Token)
  | consume (messageId sessionKey consumedBy : Text) (consumedAt : Token)
  | expire (sessionKey expiredBy : Text) (expiredAt : Token)
  | reopen (sessionKey : Text) (reopenedAt : Token)
  | openSession (sessionKey runId : Text) (openedAt : Token)

/-- The session key and run id of each `research_session` record. -/
abbrev SessionRows := List (Text × Text)

/-- `committed_session_run_ids`. -/
def committedSessionRunIds (rows : SessionRows) (sessionKey : Text) : List Text :=
  ((rows.filter fun row => row.1 = sessionKey).map fun row => stripText row.2).filter (· ≠ [])

/-- The records an operation appends. -/
def Operation.records (state : InboxState) (rows : SessionRows) :
    Operation → Except InboxError (List InboxEvent)
  | .enqueue sessionKey text interrupt messageId createdAt =>
    AgentInbox.enqueue state sessionKey text interrupt messageId.text createdAt.text
  | .consume messageId sessionKey consumedBy consumedAt =>
    AgentInbox.consume state messageId sessionKey consumedBy consumedAt.text
  | .expire sessionKey expiredBy expiredAt =>
    AgentInbox.expire state sessionKey expiredBy expiredAt.text
  | .reopen sessionKey reopenedAt =>
    AgentInbox.reopen state sessionKey reopenedAt.text
      (committedSessionRunIds rows (stripText sessionKey))
  | .openSession sessionKey runId openedAt =>
    .ok (AgentInbox.openSession state sessionKey runId openedAt.text)

structure World where
  file : Text := []
  /-- The records appended so far. -/
  events : List InboxEvent := []
  rows : SessionRows := []

inductive Action where
  /-- An operation, killed after so many of the records it appends, or not at all. -/
  | operate (operation : Operation) (killedAfter : Option Nat)
  /-- A run's `research_session` record lands in the ledger. -/
  | commit (sessionKey runId : Text)

/-- What is appended before the operation is killed. -/
def survivors (killedAfter : Option Nat) (more : List InboxEvent) : List InboxEvent :=
  match killedAfter with
  | none => more
  | some n => more.take n

def World.step (w : World) : Action → World
  | .commit sessionKey runId => { w with rows := w.rows ++ [(sessionKey, runId)] }
  | .operate operation killedAfter =>
    match loadState w.file >>= fun state => operation.records state w.rows with
    | .error _ => w
    | .ok more =>
      { w with
        file := appendRecords w.file (survivors killedAfter more),
        events := w.events ++ survivors killedAfter more }

def World.run (w : World) (actions : List Action) : World := actions.foldl World.step w

/-- The texts of its caller that an operation writes to the log. -/
def Operation.written : Operation → List Text
  | .enqueue sessionKey text .. => [stripText sessionKey, text]
  | .consume _ _ consumedBy _ => [stripText consumedBy]
  | .expire sessionKey expiredBy _ => [stripText sessionKey, stripText expiredBy]
  | .reopen .. => []
  | .openSession _ runId _ => [stripText runId]

/-- No line break that JSON leaves unescaped reaches the log. -/
def Action.unbroken : Action → Bool
  | .operate operation _ => operation.written.all fun t => !t.any isRawBreak
  | .commit .. => true

end AutoTrade.AgentInbox
