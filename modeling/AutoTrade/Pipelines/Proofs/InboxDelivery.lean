import AutoTrade.Pipelines.Proofs.AgentInbox

/-!
# Delivery through the agent inbox

Runs of the inbox: operations of the control plane and of the research session's
runs, each killed after any number of the records it appends, with the ledger's
commits between them. What a run leaves is read off the records it appended.
-/

namespace AutoTrade.AgentInbox

open Json JsonLines

variable {sessionKey runId : Text}

theorem mem_committedSessionRunIds {rows : SessionRows} :
    runId ∈ committedSessionRunIds rows sessionKey ↔
      runId ≠ [] ∧ ∃ run, (sessionKey, run) ∈ rows ∧ stripText run = runId := by
  simp only [committedSessionRunIds, List.mem_filter, List.mem_map, decide_eq_true_eq, Prod.exists]
  constructor
  · rintro ⟨⟨key, run, ⟨member, rfl⟩, rfl⟩, filled⟩
    exact ⟨by simpa using filled, run, member, rfl⟩
  · rintro ⟨filled, run, member, rfl⟩
    exact ⟨⟨sessionKey, run, ⟨member, rfl⟩, rfl⟩, by simpa using filled⟩

/-- The run has not landed in the ledger and will not. -/
def Abandoned (rows : SessionRows) (later : List Action) (sessionKey runId : Text) : Prop :=
  runId ∉ committedSessionRunIds rows sessionKey ∧
    ∀ run, .commit sessionKey run ∈ later → stripText run ≠ runId

/-- The runs of a session follow one another: when its messages are reopened,
    every run that took one of them has landed in the ledger or never will. -/
def OneAtATime (w : World) : List Action → Prop
  | [] => True
  | action :: later =>
    (∀ sessionKey reopenedAt killedAfter,
      action = .operate (.reopen sessionKey reopenedAt) killedAfter →
        ∀ messageId consumedAt runId,
          .consumed messageId (stripText sessionKey) consumedAt runId ∈ w.events →
            runId ∈ committedSessionRunIds w.rows (stripText sessionKey) ∨
              Abandoned w.rows later (stripText sessionKey) runId) ∧
      OneAtATime (w.step action) later

/-- A message once expired is not consumed. -/
def Spent (e f : InboxEvent) : Prop :=
  ∀ messageId sessionKey expiredAt expiredBy,
    e = .expired messageId sessionKey expiredAt expiredBy →
      ∀ sessionKey' consumedAt runId, f ≠ .consumed messageId sessionKey' consumedAt runId

/-- The inbox between two actions, `later` those still to come. -/
structure Delivering (later : List Action) (w : World) (state : InboxState) : Prop where
  log : Log w.file w.events
  loads : loadState w.file = .ok state
  folded : Folded w.events state
  taken : ∀ {messageId sessionKey consumedAt runId},
    .consumed messageId sessionKey consumedAt runId ∈ w.events →
      (∃ message, state.messages.get? messageId = some message ∧
        message.consumedBy = some runId) ∨ Abandoned w.rows later sessionKey runId
  spent : w.events.Pairwise Spent

theorem delivering_start (actions : List Action) : Delivering actions {} {} where
  log := ⟨rfl, fun event absurd => by cases absurd⟩
  loads := rfl
  folded := folded_nil
  taken absurd := by cases absurd
  spent := List.Pairwise.nil

theorem Abandoned.later {rows : SessionRows} {action : Action} {later : List Action}
    {sessionKey runId : Text} (abandoned : Abandoned rows (action :: later) sessionKey runId) :
    Abandoned rows later sessionKey runId :=
  ⟨abandoned.1, fun run member => abandoned.2 run (List.mem_cons_of_mem action member)⟩

variable {state : InboxState} {w : World} {later : List Action}

theorem Delivering.commit (delivering : Delivering (.commit sessionKey runId :: later) w state) :
    Delivering later (w.step (.commit sessionKey runId)) state := by
  refine ⟨delivering.log, delivering.loads, delivering.folded, ?_, delivering.spent⟩
  intro messageId key consumedAt run member
  rcases delivering.taken member with held | abandoned
  · exact .inl held
  · refine .inr ⟨?_, abandoned.later.2⟩
    intro committed
    obtain ⟨filled, run', inRows, rfl⟩ := mem_committedSessionRunIds.mp committed
    rcases List.mem_append.mp inRows with old | new
    · exact abandoned.1 (mem_committedSessionRunIds.mpr ⟨filled, run', old, rfl⟩)
    · obtain ⟨rfl, rfl⟩ := Prod.mk.inj (List.mem_singleton.mp new)
      exact abandoned.2 run' List.mem_cons_self rfl

theorem Folded.reopened {events more : List InboxEvent} (folded : Folded events state)
    {rows : SessionRows} {operation : Operation} (h : operation.records state rows = .ok more)
    {messageId sessionKey reopenedAt : Text}
    (member : .reopened messageId sessionKey reopenedAt ∈ more) :
    ∃ key stamp, operation = .reopen key stamp ∧ sessionKey = stripText key ∧
      ∀ message runId, state.messages.get? messageId = some message →
        message.consumedBy = some runId → stripText runId = runId → runId ≠ [] →
          runId ∉ committedSessionRunIds rows sessionKey := by
  cases operation with
  | enqueue key text interrupt messageId' createdAt =>
    obtain ⟨rfl, -⟩ := enqueue_eq_ok h
    cases List.mem_singleton.mp member
  | consume messageId' key consumedBy consumedAt =>
    rcases consume_eq_ok h with rfl | ⟨rfl, -⟩
    · cases member
    · cases List.mem_singleton.mp member
  | expire key expiredBy expiredAt =>
    obtain ⟨-, -, leftovers, closing, -, -, closes, rfl⟩ := expire_eq_ok h
    rcases List.mem_append.mp member with inside | closed
    · obtain ⟨message, -, absurd⟩ := List.mem_map.mp inside
      cases absurd
    · rcases closes with rfl | rfl
      · cases closed
      · cases List.mem_singleton.mp closed
  | openSession key runId openedAt =>
    obtain rfl := Except.ok.inj h
    unfold AgentInbox.openSession at member
    split_ifs at member
    · cases member
    · cases List.mem_singleton.mp member
    · cases member
  | reopen key stamp =>
    obtain ⟨uncommitted, sub, checked, rfl⟩ := reopen_eq_ok h
    obtain ⟨message, member', same⟩ := List.mem_map.mp member
    obtain ⟨rfl, rfl, -⟩ := InboxEvent.reopened.inj same
    refine ⟨key, stamp, rfl, rfl, ?_⟩
    intro message' runId found taken stripped filled committed
    obtain ⟨inside, -, -, -, free⟩ := (checked message).mp member'
    obtain rfl : message = message' := Option.some.inj ((folded.get? inside).symm.trans found)
    rw [taken] at free
    refine free (List.mem_filter.mpr ⟨List.mem_map.mpr ⟨runId, committed, stripped⟩, ?_⟩)
    simpa using filled

theorem Delivering.operate {operation : Operation} {killedAfter : Option Nat}
    (delivering : Delivering (.operate operation killedAfter :: later) w state)
    (unbroken : (Action.operate operation killedAfter).unbroken = true)
    (settled : ∀ sessionKey reopenedAt, operation = .reopen sessionKey reopenedAt →
      ∀ messageId consumedAt runId,
        .consumed messageId (stripText sessionKey) consumedAt runId ∈ w.events →
          runId ∈ committedSessionRunIds w.rows (stripText sessionKey) ∨
            Abandoned w.rows later (stripText sessionKey) runId) :
    ∃ state', Delivering later (w.step (.operate operation killedAfter)) state' := by
  obtain ⟨log, loads, folded, taken, spent⟩ := delivering
  unfold World.step
  rw [loads]
  cases decided : operation.records state w.rows with
  | error e =>
    refine ⟨state, ?_⟩
    have skipped : (Except.ok state >>= fun state => operation.records state w.rows) = .error e :=
      decided
    simp only [skipped]
    refine ⟨log, loads, folded, fun member => ?_, spent⟩
    exact (taken member).imp_right Abandoned.later
  | ok more =>
    have done : (Except.ok state >>= fun state => operation.records state w.rows) = .ok more :=
      decided
    simp only [done]
    have written : ∀ t ∈ operation.written, t.any isRawBreak = false := by
      intro t member
      have all := List.all_eq_true.mp unbroken t member
      simpa using all
    obtain ⟨appends, clean⟩ := folded.records log.clean written decided
    have sub := survivors_sublist killedAfter more
    have appends' := appends.sublist sub
    generalize survivors killedAfter more = kept at sub appends' ⊢
    obtain ⟨state', applied, folded', frame, touched⟩ := folded.appends appends'
    have log' := log.append fun event member => clean event (sub.subset member)
    refine ⟨state', log', ?_, folded', ?_, ?_⟩
    · rw [log'.loadState]
      exact foldlM_append_eq_ok.mpr ⟨state, log.loadState.symm.trans loads, applied⟩
    · intro messageId sessionKey consumedAt runId member
      rcases List.mem_append.mp member with old | new
      · rcases taken old with ⟨message, found, holder⟩ | abandoned
        · -- the run still holds the message unless a record here takes it away
          by_cases touch : ∃ event ∈ kept, event.touches? = some messageId
          · obtain ⟨event, inside, touches⟩ := touch
            obtain ⟨message', found', left⟩ := touched event inside messageId touches
            obtain rfl : message = message' := Option.some.inj (found.symm.trans found')
            cases event with
            | queued => cases touches
            | sessionExpired => cases touches
            | sessionOpened => cases touches
            | expired => exact .inl ⟨_, left, holder⟩
            | consumed mid' =>
              obtain rfl : mid' = messageId := Option.some.inj touches
              obtain ⟨message', found'', -, -, fresh⟩ := appends'.admissible _ inside
              obtain rfl : message = message' := Option.some.inj (found.symm.trans found'')
              have agree := (folded.consumed found).2
              rw [holder, fresh] at agree
              cases agree
            | reopened mid' key' reopenedAt =>
              obtain rfl : mid' = messageId := Option.some.inj touches
              obtain ⟨key, stamp, rfl, rfl, free⟩ := folded.reopened decided (sub.subset inside)
              obtain ⟨message', found'', keyed, -⟩ := appends'.admissible _ inside
              obtain rfl : message = message' := Option.some.inj (found.symm.trans found'')
              obtain ⟨message', found'', keyed'⟩ := folded.keyed old rfl
              obtain rfl : message = message' := Option.some.inj (found.symm.trans found'')
              obtain rfl : sessionKey = stripText key := keyed'.symm.trans keyed
              have cleanRun := log.clean _ old
              simp only [InboxEvent.Clean, InboxEvent.texts, List.forall_mem_cons] at cleanRun
              rcases settled key stamp rfl mid' consumedAt runId old with committed | gone
              · obtain ⟨filled, run, -, stripped⟩ := mem_committedSessionRunIds.mp committed
                have same : stripText runId = runId := by rw [← stripped, stripText_stripText]
                exact absurd committed (free message runId found holder same filled)
              · exact .inr gone
          · have untouched : ∀ event ∈ kept, event.touches? ≠ some messageId ∧
                queuedId? event ≠ some messageId := by
              intro event inside
              refine ⟨fun touches => touch ⟨event, inside, touches⟩, fun queued => ?_⟩
              cases event with
              | queued mid' =>
                obtain rfl : mid' = messageId := Option.some.inj queued
                have fresh := (appends'.admissible _ inside).1
                rw [found] at fresh
                cases fresh
              | _ => cases queued
            exact .inl ⟨message, (frame messageId untouched).trans found, holder⟩
        · exact .inr abandoned.later
      · obtain ⟨message, -, left⟩ := touched _ new messageId rfl
        exact .inl ⟨_, left, rfl⟩
    · refine List.pairwise_append.mpr ⟨spent, ?_, ?_⟩
      · rcases appends'.apart with short | ⟨-, apart⟩
        · rcases kept with _ | ⟨event, _ | ⟨other, more⟩⟩
          · exact List.Pairwise.nil
          · exact List.pairwise_singleton _ event
          · simp at short
        · refine apart.imp ?_
          rintro e f different messageId sessionKey expiredAt expiredBy rfl key consumedAt runId rfl
          exact different messageId rfl rfl
      · rintro e old f new messageId sessionKey expiredAt expiredBy rfl key consumedAt runId rfl
        obtain ⟨message, found, -, open_, -⟩ := appends'.admissible _ new
        have shut := (folded.expired found).mpr ⟨sessionKey, expiredAt, expiredBy, old⟩
        rw [open_] at shut
        cases shut

theorem Delivering.run {actions : List Action} (delivering : Delivering actions w state)
    (unbroken : ∀ action ∈ actions, action.unbroken = true) (oneAtATime : OneAtATime w actions) :
    ∃ state', Delivering [] (w.run actions) state' := by
  induction actions generalizing w state with
  | nil => exact ⟨state, delivering⟩
  | cons action later ih =>
    obtain ⟨here, next⟩ := oneAtATime
    have step : ∃ state', Delivering later (w.step action) state' := by
      cases action with
      | commit sessionKey runId => exact ⟨state, delivering.commit⟩
      | operate operation killedAfter =>
        refine delivering.operate (unbroken _ List.mem_cons_self) ?_
        rintro sessionKey reopenedAt rfl messageId consumedAt runId member
        exact here sessionKey reopenedAt killedAfter rfl messageId consumedAt runId member
    obtain ⟨state', delivering'⟩ := step
    exact ih delivering' (fun later' member => unbroken later' (List.mem_cons_of_mem action member))
      next

/-- What the inbox owes its users and its runs. -/
structure Delivered (w : World) : Prop where
  /-- The log loads, and holds every message it accepted as it was accepted. -/
  kept : ∃ state, loadState w.file = .ok state ∧
    ∀ messageId sessionKey text interrupt createdAt,
      .queued messageId sessionKey text interrupt createdAt ∈ w.events →
        ∃ message, state.messages.get? messageId = some message ∧
          message.sessionKey = sessionKey ∧ message.text = text ∧
          message.interrupt = interrupt ∧ message.createdAt = createdAt
  /-- Once its session is reopened, a message waits for delivery unless it expired
      or a run that is in the ledger took it. -/
  accounted : ∀ key (reopenedAt : Token), Filled key → '\x00' ∉ key →
    ∀ messageId text interrupt createdAt,
      .queued messageId (stripText key) text interrupt createdAt ∈ w.events →
        (∃ pending, listUnconsumed (w.step (.operate (.reopen key reopenedAt) none)).file key =
          .ok pending ∧ ∃ message ∈ pending, message.messageId = messageId ∧ message.text = text) ∨
        Expired w.events messageId ∨
        ∃ consumedAt runId, .consumed messageId (stripText key) consumedAt runId ∈ w.events ∧
          runId ∈ committedSessionRunIds w.rows (stripText key)
  /-- Of the runs that took a message at most one is in the ledger. -/
  once : ∀ messageId sessionKey consumedAt runId consumedAt' runId',
    .consumed messageId sessionKey consumedAt runId ∈ w.events →
    .consumed messageId sessionKey consumedAt' runId' ∈ w.events →
    runId ∈ committedSessionRunIds w.rows sessionKey →
    runId' ∈ committedSessionRunIds w.rows sessionKey → runId = runId'
  /-- What waits is listed in the order it was accepted. -/
  ordered : ∀ sessionKey pending, listUnconsumed w.file sessionKey = .ok pending →
    (pending.map InboxMessage.messageId).Sublist (w.events.filterMap queuedId?)
  spent : w.events.Pairwise Spent
  /-- A session that expired takes no message until it is opened again. -/
  refused : ∀ sessionKey, Closed w.events (stripText sessionKey) →
    ∀ text interrupt (messageId createdAt : Token) state more, loadState w.file = .ok state →
      (Operation.enqueue sessionKey text interrupt messageId createdAt).records state w.rows ≠
        .ok more

theorem listUnconsumed_eq {file key : Text} (loads : loadState file = .ok state)
    (filled : Filled key) (noNul : '\x00' ∉ key) : listUnconsumed file key =
      .ok (state.messages.values.filter fun message =>
        message.sessionKey = stripText key && message.unconsumed) := by
  have token : requireToken key = .ok (stripText key) := by
    unfold requireToken
    rw [if_neg (not_or.mpr ⟨filled, noNul⟩)]
  unfold listUnconsumed
  rw [token, loads]
  rfl

theorem Delivering.ordered (delivering : Delivering later w state) {sessionKey : Text}
    {pending : List InboxMessage} (listed : listUnconsumed w.file sessionKey = .ok pending) :
    (pending.map InboxMessage.messageId).Sublist (w.events.filterMap queuedId?) := by
  obtain ⟨key, -, listed'⟩ := bind_eq_ok.mp listed
  obtain ⟨state', loads, listed''⟩ := bind_eq_ok.mp listed'
  obtain rfl : state = state' := Except.ok.inj (delivering.loads.symm.trans loads)
  obtain rfl := Except.ok.inj listed''
  have ids : state.messages.values.map InboxMessage.messageId = state.messages.keys :=
    Dict.map_values_eq_keys fun _ _ => delivering.folded.named
  rw [← delivering.folded.order, ← ids]
  exact List.filter_sublist.map _

theorem Delivering.reopen (delivering : Delivering later w state) {key : Text}
    (reopenedAt : Token) (filled : Filled key) (noNul : '\x00' ∉ key) :
    ∃ state', loadState (w.step (.operate (.reopen key reopenedAt) none)).file = .ok state' ∧
      ∀ messageId message, state.messages.get? messageId = some message →
        message.sessionKey = stripText key → message.expiredAt = none →
          (message.consumedAt = none → state'.messages.get? messageId = some message) ∧
          ((∃ runId, message.consumedBy = some runId ∧
              runId ∈ committedSessionRunIds w.rows (stripText key)) ∨
            message.consumedAt = none ∨
            ∃ reopened, state'.messages.get? messageId = some reopened ∧
              reopened.messageId = messageId ∧ reopened.sessionKey = stripText key ∧
              reopened.text = message.text ∧ reopened.unconsumed = true) := by
  obtain ⟨log, loads, folded, taken, -⟩ := delivering
  have token : requireToken key = .ok (stripText key) := by
    unfold requireToken
    rw [if_neg (not_or.mpr ⟨filled, noNul⟩)]
  obtain ⟨more, decided⟩ : ∃ more,
      (Operation.reopen key reopenedAt).records state w.rows = .ok more := by
    show ∃ more, AgentInbox.reopen state key _ _ = .ok more
    unfold AgentInbox.reopen
    rw [token]
    exact ⟨_, rfl⟩
  have stepped : (w.step (.operate (.reopen key reopenedAt) none)).file =
      appendRecords w.file more := by
    unfold World.step
    have done : (Except.ok state >>= fun state =>
        (Operation.reopen key reopenedAt).records state w.rows) = .ok more := decided
    rw [loads]
    simp only [done]
    rfl
  obtain ⟨appends, clean⟩ := folded.records log.clean (fun t absurd => by cases absurd) decided
  obtain ⟨state', applied, -, frame, touched⟩ := folded.appends appends
  refine ⟨state', ?_, ?_⟩
  · rw [stepped, (log.append clean).loadState]
    exact foldlM_append_eq_ok.mpr ⟨state, log.loadState.symm.trans loads, applied⟩
  · obtain ⟨uncommitted, sub, checked, rfl⟩ := reopen_eq_ok decided
    intro messageId message found keyed open_
    have member : message ∈ state.messages.values := Dict.mem_values_iff.mpr ⟨messageId, found⟩
    have named := folded.named found
    constructor
    · intro fresh
      refine (frame messageId ?_).trans found
      intro event inside
      obtain ⟨message', member', rfl⟩ := List.mem_map.mp inside
      refine ⟨fun same => ?_, fun absurd => by cases absurd⟩
      obtain ⟨inside', -, -, consumed, -⟩ := (checked message').mp member'
      have found' := folded.get? inside'
      rw [Option.some.inj same] at found'
      obtain rfl : message = message' := Option.some.inj (found.symm.trans found')
      rw [fresh] at consumed
      cases consumed
    · by_cases committed : message.consumedBy.getD [] ∈
          ((committedSessionRunIds w.rows (stripText key)).map stripText).filter (· ≠ [])
      · obtain ⟨inMap, -⟩ := List.mem_filter.mp committed
        obtain ⟨runId, inLedger, stripped⟩ := List.mem_map.mp inMap
        obtain ⟨filled', run, -, rfl⟩ := mem_committedSessionRunIds.mp inLedger
        rw [stripText_stripText] at stripped
        cases held : message.consumedBy with
        | none =>
          rw [held] at stripped
          exact absurd stripped filled'
        | some runId =>
          rw [held, Option.getD_some] at stripped
          exact .inl ⟨runId, rfl, stripped ▸ inLedger⟩
      · cases consumed : message.consumedAt with
        | none => exact .inr (.inl rfl)
        | some consumedAt =>
          have gone : message ∈ uncommitted :=
            (checked message).mpr ⟨member, keyed, open_, by rw [consumed]; rfl, committed⟩
          obtain ⟨message', found', left⟩ := touched _ (List.mem_map.mpr ⟨message, gone, rfl⟩)
            message.messageId rfl
          rw [named] at found' left
          obtain rfl : message = message' := Option.some.inj (found.symm.trans found')
          exact .inr (.inr ⟨_, left, named, keyed, rfl, rfl⟩)

theorem Delivering.accounted (delivering : Delivering [] w state) {key : Text}
    (reopenedAt : Token) (filled : Filled key) (noNul : '\x00' ∉ key)
    {messageId text createdAt : Text} {interrupt : Bool}
    (member : .queued messageId (stripText key) text interrupt createdAt ∈ w.events) :
    (∃ pending, listUnconsumed (w.step (.operate (.reopen key reopenedAt) none)).file key =
      .ok pending ∧ ∃ message ∈ pending, message.messageId = messageId ∧ message.text = text) ∨
    Expired w.events messageId ∨
    ∃ consumedAt runId, .consumed messageId (stripText key) consumedAt runId ∈ w.events ∧
      runId ∈ committedSessionRunIds w.rows (stripText key) := by
  obtain ⟨message, found, keyed, same, -⟩ := delivering.folded.kept member
  by_cases shut : Expired w.events messageId
  · exact .inr (.inl shut)
  · have open_ : message.expiredAt = none := by
      by_contra some_
      exact shut ((delivering.folded.expired found).mp (Option.isSome_iff_ne_none.mpr some_))
    obtain ⟨state', loads', reopened⟩ := delivering.reopen reopenedAt filled noNul
    have listed := listUnconsumed_eq loads' filled noNul
    obtain ⟨frame, outcome⟩ := reopened messageId message found keyed open_
    rcases outcome with ⟨runId, held, committed⟩ | fresh | ⟨message', found', named', keyed', text', free⟩
    · obtain ⟨consumedAt, consumed⟩ := delivering.folded.consumer found held
      rw [keyed] at consumed
      exact .inr (.inr ⟨consumedAt, runId, consumed, committed⟩)
    · refine .inl ⟨_, listed, message, List.mem_filter.mpr ⟨?_, ?_⟩,
        delivering.folded.named found, same⟩
      · exact Dict.mem_values_iff.mpr ⟨messageId, frame fresh⟩
      · simp [InboxMessage.unconsumed, keyed, fresh, open_]
    · refine .inl ⟨_, listed, message', List.mem_filter.mpr ⟨?_, ?_⟩, named', text'.trans same⟩
      · exact Dict.mem_values_iff.mpr ⟨messageId, found'⟩
      · simp [keyed', free]

theorem Delivering.delivered (delivering : Delivering [] w state) :
    Delivered w where
  kept := ⟨state, delivering.loads, fun _ _ _ _ _ => delivering.folded.kept⟩
  accounted key reopenedAt filled noNul _ _ _ _ := delivering.accounted reopenedAt filled noNul
  once := by
    intro messageId sessionKey consumedAt runId consumedAt' runId' taken taken' committed committed'
    have holder : ∀ {consumedAt runId},
        .consumed messageId sessionKey consumedAt runId ∈ w.events →
        runId ∈ committedSessionRunIds w.rows sessionKey → ∃ message,
          state.messages.get? messageId = some message ∧ message.consumedBy = some runId := by
      intro consumedAt runId member inLedger
      exact (delivering.taken member).resolve_right fun abandoned => abandoned.1 inLedger
    obtain ⟨message, found, held⟩ := holder taken committed
    obtain ⟨message', found', held'⟩ := holder taken' committed'
    obtain rfl : message = message' := Option.some.inj (found.symm.trans found')
    exact Option.some.inj (held.symm.trans held')
  ordered _ _ := delivering.ordered
  spent := delivering.spent
  refused := by
    intro sessionKey closed text interrupt messageId createdAt state' more loads accepted
    obtain rfl : state = state' := Except.ok.inj (delivering.loads.symm.trans loads)
    obtain ⟨-, -, -, -, -, opened⟩ := enqueue_eq_ok accepted
    exact opened (delivering.folded.closed.mpr closed)

theorem requireToken_stripText (t : Text) : requireToken (stripText t) = requireToken t := by
  have nul : '\x00' ∈ stripText t ↔ '\x00' ∈ t :=
    ⟨mem_of_mem_stripText, fun member => mem_stripText_of_not member (by decide)⟩
  unfold requireToken
  simp only [stripText_stripText, nul]

theorem bindSessionInbox_run {sessionKey runId file : Text} {reopenedAt openedAt : Token}
    (filled : Filled sessionKey) (acted : Filled runId)
    (bound : bindSessionInbox w.file sessionKey runId reopenedAt.text openedAt.text
      (committedSessionRunIds w.rows (stripText sessionKey)) = .ok file) :
    (w.run [.operate (.reopen sessionKey reopenedAt) none,
      .operate (.openSession sessionKey runId openedAt) none]).file = file := by
  unfold bindSessionInbox at bound
  rw [if_neg (not_or.mpr ⟨filled, acted⟩)] at bound
  obtain ⟨state, loads, bound⟩ := bind_eq_ok.mp bound
  obtain ⟨reopened, decided, bound⟩ := bind_eq_ok.mp bound
  obtain ⟨state', loads', bound⟩ := bind_eq_ok.mp bound
  obtain rfl := Except.ok.inj bound
  unfold AgentInbox.reopen at decided
  rw [requireToken_stripText] at decided
  have first : w.step (.operate (.reopen sessionKey reopenedAt) none) =
      { w with file := appendRecords w.file reopened, events := w.events ++ reopened } := by
    have done : (Except.ok state >>= fun state =>
        (Operation.reopen sessionKey reopenedAt).records state w.rows) = .ok reopened := decided
    unfold World.step
    rw [loads]
    simp only [done]
    rfl
  unfold World.run
  rw [List.foldl_cons, List.foldl_cons, List.foldl_nil, first]
  unfold World.step
  simp only [loads']
  rfl

/-- When no text that breaks its line reaches the log and the runs of a session
    follow one another, the inbox delivers. -/
theorem inbox_delivers {actions : List Action}
    (unbroken : ∀ action ∈ actions, action.unbroken = true) (oneAtATime : OneAtATime {} actions) :
    Delivered (World.run {} actions) := by
  obtain ⟨state, delivering⟩ := (delivering_start actions).run unbroken oneAtATime
  exact delivering.delivered

def sampleToken (name : String) (filled : stripText name.toList ≠ [])
    (plain : name.toList.any isRawBreak = false) : Token := ⟨name.toList, filled, plain⟩

def sampleId : Token := sampleToken "5f2c" (by decide) (by decide)

def sampleNow : Token := sampleToken "2026-01-05T09:00:00+00:00" (by decide) (by decide)

/-- A message one run took and never landed with, and the next run took again. -/
def retakenMessage : List Action :=
  [.operate (.enqueue "research".toList "look at turnover".toList false sampleId sampleNow) none,
    .operate (.consume sampleId.text "research".toList "run_1".toList sampleNow) none,
    .operate (.reopen "research".toList sampleNow) none,
    .operate (.consume sampleId.text "research".toList "run_2".toList sampleNow) none,
    .commit "research".toList "run_2".toList,
    .operate (.expire "research".toList "run_2".toList sampleNow) none]

theorem retaken_message_delivered : Delivered (World.run {} retakenMessage) := by
  refine inbox_delivers (by decide +kernel) ?_
  refine ⟨?_, ?_, ?_, ?_, ?_, ?_, trivial⟩
  · rintro _ _ _ absurd
    cases absurd
  · rintro _ _ _ absurd
    cases absurd
  · rintro sessionKey reopenedAt killedAfter same messageId consumedAt runId member
    obtain ⟨reopened, -⟩ := Action.operate.inj same
    have keyed : sessionKey = "research".toList := (Operation.reopen.inj reopened).1.symm
    rw [keyed] at member ⊢
    generalize world : (World.step {} _).step _ = w at member ⊢
    have rows : w.rows = [] := by
      rw [← world]
      decide +kernel
    have events : w.events =
        [.queued "5f2c".toList "research".toList "look at turnover".toList false
            "2026-01-05T09:00:00+00:00".toList,
          .consumed "5f2c".toList "research".toList "2026-01-05T09:00:00+00:00".toList
            "run_1".toList] := by
      rw [← world]
      decide +kernel
    rw [events] at member
    simp only [List.mem_cons, List.not_mem_nil, or_false, reduceCtorEq, false_or,
      InboxEvent.consumed.injEq] at member
    refine .inr ⟨?_, ?_⟩
    · rw [rows]
      exact List.not_mem_nil
    · rintro run lands rfl
      simp only [List.mem_cons, List.not_mem_nil, or_false, reduceCtorEq, false_or,
        Action.commit.injEq] at lands
      rw [lands.2] at member
      exact absurd member.2.2.2 (by decide)
  · rintro _ _ _ absurd
    cases absurd
  · rintro _ _ _ absurd
    cases absurd
  · rintro _ _ _ absurd
    cases absurd

/-- A message whose text holds a line separator. -/
def separatedMessage : List Action :=
  [.operate (.enqueue "research".toList "stop\u2028now".toList false sampleId
    sampleNow) none]

/-- It is accepted, and the inbox is lost with it. -/
theorem separated_message_lost : OneAtATime {} separatedMessage ∧
    .queued "5f2c".toList "research".toList "stop\u2028now".toList false
      "2026-01-05T09:00:00+00:00".toList ∈ (World.run {} separatedMessage).events ∧
    ¬ Delivered (World.run {} separatedMessage) := by
  refine ⟨⟨?_, trivial⟩, by decide +kernel, ?_⟩
  · rintro _ _ _ absurd
    cases absurd
  · intro delivered
    obtain ⟨state, loads, -⟩ := delivered.kept
    have unread : (loadState (World.run {} separatedMessage).file).toOption.isNone := by
      decide +kernel
    rw [loads] at unread
    cases unread

end AutoTrade.AgentInbox
