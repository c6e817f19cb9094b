import AutoTrade.Pipelines.Proofs.InboxDelivery

/-!
# Texts in the inbox log

Whatever has been done to the inbox, its log loads exactly when no record in it holds a line break
that JSON leaves unescaped; and a message is listed as it was accepted, beside those that were
listed before, exactly when its own record holds none.
-/

namespace AutoTrade.AgentInbox

open Json JsonLines

theorem texts_of_records {state : InboxState} {rows : SessionRows} {operation : Operation}
    {more : List InboxEvent} (decided : operation.records state rows = .ok more) :
    ∀ event ∈ more, ∀ t ∈ operation.written, t ∈ event.texts := by
  intro event member t written
  cases operation with
  | enqueue sessionKey text interrupt messageId createdAt =>
    obtain ⟨rfl, -⟩ := enqueue_eq_ok decided
    cases List.mem_singleton.mp member
    simp only [Operation.written, List.mem_cons, List.not_mem_nil, or_false] at written
    rcases written with rfl | rfl <;> simp [InboxEvent.texts]
  | consume messageId sessionKey consumedBy consumedAt =>
    rcases consume_eq_ok decided with rfl | ⟨rfl, -⟩
    · cases member
    · cases List.mem_singleton.mp member
      cases List.mem_singleton.mp written
      simp [InboxEvent.texts]
  | expire sessionKey expiredBy expiredAt =>
    obtain ⟨-, -, leftovers, closing, -, -, closes, rfl⟩ := expire_eq_ok decided
    simp only [Operation.written, List.mem_cons, List.not_mem_nil, or_false] at written
    rcases List.mem_append.mp member with inside | closed
    · obtain ⟨message, _, same⟩ := List.mem_map.mp inside
      subst same
      rcases written with rfl | rfl <;> simp [InboxEvent.texts]
    · rcases closes with rfl | rfl
      · cases closed
      · cases List.mem_singleton.mp closed
        rcases written with rfl | rfl <;> simp [InboxEvent.texts]
  | reopen => cases written
  | openSession sessionKey runId openedAt =>
    obtain rfl := Except.ok.inj decided
    cases List.mem_singleton.mp written
    unfold AgentInbox.openSession at member
    split_ifs at member
    · cases member
    · cases List.mem_singleton.mp member
      simp [InboxEvent.texts]
    · cases member

/-- What stands between any two actions: the log holds the records, and folds if it loads. -/
structure Kept (w : World) : Prop where
  written : w.file = dumpLines (w.events.map InboxEvent.toRecord)
  folds : (∀ event ∈ w.events, breaksLine event.toRecord = false) →
    (∀ event ∈ w.events, event.Clean) ∧
      ∃ state, Folded w.events state ∧ loadState w.file = .ok state

theorem Kept.loads {w : World} (kept : Kept w) {state : InboxState}
    (loads : loadState w.file = .ok state) :
    ∀ event ∈ w.events, breaksLine event.toRecord = false := by
  intro event member
  refine Bool.eq_false_iff.mpr fun broken => ?_
  have ⟨_, fails⟩ := loadState_broken member broken []
  rw [List.append_nil, ← kept.written, loads] at fails
  cases fails

theorem kept_start : Kept {} where
  written := rfl
  folds _ := ⟨fun _ absurd => (nomatch absurd), {}, folded_nil, rfl⟩

theorem Folded.survived {events more : List InboxEvent} {state : InboxState} {rows : SessionRows}
    {operation : Operation} (folded : Folded events state) (clean : ∀ event ∈ events, event.Clean)
    (decided : operation.records state rows = .ok more) (killedAfter : Option Nat)
    (whole : ∀ event ∈ survivors killedAfter more, breaksLine event.toRecord = false) :
    Appends state (survivors killedAfter more) ∧
      ∀ event ∈ survivors killedAfter more, event.Clean := by
  have sub := survivors_sublist killedAfter more
  have texts := texts_of_records decided
  generalize survivors killedAfter more = survived at sub whole ⊢
  cases survived with
  | nil => exact ⟨Appends.nil _, fun _ absurd => by cases absurd⟩
  | cons first rest =>
    have plain := whole first List.mem_cons_self
    rw [breaksLine_toRecord, List.any_eq_false] at plain
    have unbroken : ∀ t ∈ operation.written, t.any isRawBreak = false := by
      intro t member
      have := plain t (texts first (sub.subset List.mem_cons_self) t member)
      simpa using this
    have ⟨appends, clean'⟩ := folded.records clean unbroken decided
    exact ⟨appends.sublist sub, fun event member => clean' event (sub.subset member)⟩

theorem Kept.step {w : World} (kept : Kept w) (action : Action) : Kept (w.step action) := by
  cases action with
  | commit sessionKey runId => exact ⟨kept.written, kept.folds⟩
  | operate operation killedAfter =>
    unfold World.step
    cases loads : loadState w.file with
    | error e => exact kept
    | ok state =>
      cases decided : operation.records state w.rows with
      | error e =>
        have skipped : (Except.ok state >>= fun state => operation.records state w.rows) =
            .error e := decided
        simp only [skipped]
        exact kept
      | ok more =>
        have done : (Except.ok state >>= fun state => operation.records state w.rows) =
            .ok more := decided
        simp only [done]
        obtain ⟨clean, state', folded, loads'⟩ := kept.folds (kept.loads loads)
        obtain rfl : state = state' := Except.ok.inj (loads.symm.trans loads')
        have log : Log w.file w.events := ⟨kept.written, clean⟩
        refine ⟨?_, fun whole => ?_⟩
        · rw [appendRecords, kept.written, List.map_append]
          simp [dumpLines]
        · obtain ⟨appends, clean'⟩ := folded.survived clean decided killedAfter
            fun event member => whole event (List.mem_append_right _ member)
          obtain ⟨state'', applied, folded', _⟩ := folded.appends appends
          have log' := log.append clean'
          refine ⟨log'.clean, state'', folded', ?_⟩
          rw [log'.loadState]
          exact foldlM_append_eq_ok.mpr ⟨state, log.loadState.symm.trans loads, applied⟩

theorem Kept.run {w : World} (kept : Kept w) (actions : List Action) : Kept (w.run actions) := by
  induction actions generalizing w with
  | nil => exact kept
  | cons action later ih => exact ih (kept.step action)

theorem Kept.loads_iff {w : World} (kept : Kept w) :
    (∃ state, loadState w.file = .ok state) ↔
      ∀ event ∈ w.events, breaksLine event.toRecord = false := by
  constructor
  · exact fun ⟨_, loads⟩ => kept.loads loads
  · intro whole
    have ⟨_, state, _, loads⟩ := kept.folds whole
    exact ⟨state, loads⟩

/-- What `_apply_inbox` adds to a conversation: a user message for every pending one. -/
def applyInbox (conversation : List Text) (pending : List InboxMessage) : List Text :=
  conversation ++ pending.map InboxMessage.text

/-- The message is listed last in its session and delivered as it was accepted; every session is
listed what it was before, and delivered it. -/
def ListedBack (before after : Text) (message : InboxMessage) : Prop :=
  ∀ key pending, listUnconsumed before key = .ok pending → ∃ pending',
    listUnconsumed after key = .ok pending' ∧
      pending' = pending ++ (if stripText key = message.sessionKey then [message] else []) ∧
      ∀ conversation, applyInbox conversation pending' = applyInbox conversation pending ++
        if stripText key = message.sessionKey then [message.text] else []

theorem applyInbox_append (conversation : List Text) (pending more : List InboxMessage) :
    applyInbox conversation (pending ++ more) =
      applyInbox conversation pending ++ more.map InboxMessage.text := by
  rw [applyInbox, List.map_append, ← List.append_assoc]
  rfl

theorem applyEvent_queued {state : InboxState} {messageId sessionKey text createdAt : Text}
    {interrupt : Bool} (fresh : state.messages.get? messageId = none) :
    applyEvent state (.queued messageId sessionKey text interrupt createdAt) =
      .ok { state with
        messages := state.messages.set messageId
          { messageId, sessionKey, text, interrupt, createdAt } } := by
  simp only [applyEvent, fresh]

theorem values_set_of_fresh {messages : Dict Text InboxMessage} {messageId : Text}
    (fresh : messages.get? messageId = none) (message : InboxMessage) :
    (messages.set messageId message).values = messages.values ++ [message] := by
  rw [Dict.values, Dict.entries_set_of_fresh (Dict.get?_eq_none_iff.mp fresh), List.map_append]
  rfl

theorem loads_of_listUnconsumed {file key : Text} {pending : List InboxMessage}
    (listed : listUnconsumed file key = .ok pending) : ∃ state, loadState file = .ok state := by
  have ⟨_, _, listing⟩ := bind_eq_ok.mp listed
  have ⟨state, loads, _⟩ := bind_eq_ok.mp listing
  exact ⟨state, loads⟩

/-- However the inbox came to be, its log loads exactly when no record in it holds a break; and a
message that is accepted is listed and delivered as it was, beside what was there, exactly when
neither its text nor its session key holds one. -/
theorem accepted_text_survives_iff (actions : List Action) :
    ((∃ state, loadState (World.run {} actions).file = .ok state) ↔
      ∀ event ∈ (World.run {} actions).events, breaksLine event.toRecord = false) ∧
    ∀ sessionKey text interrupt, ∀ messageId createdAt : Token, ∀ state more,
      loadState (World.run {} actions).file = .ok state →
      enqueue state sessionKey text interrupt messageId.text createdAt.text = .ok more →
      (ListedBack (World.run {} actions).file
          ((World.run {} actions).step
            (.operate (.enqueue sessionKey text interrupt messageId createdAt) none)).file
          { messageId := messageId.text, sessionKey := stripText sessionKey, text, interrupt,
            createdAt := createdAt.text } ↔
        ¬ ((stripText sessionKey).any isRawBreak || text.any isRawBreak) = true) := by
  have kept := kept_start.run actions
  generalize World.run {} actions = w at kept ⊢
  refine ⟨kept.loads_iff, ?_⟩
  intro sessionKey text interrupt messageId createdAt state more loads accepted
  obtain ⟨recorded, filled, _, fresh, _⟩ := enqueue_eq_ok accepted
  subst recorded
  have done : (Except.ok state >>= fun state => (Operation.enqueue sessionKey text interrupt
      messageId createdAt).records state w.rows) = .ok _ := accepted
  have after : (w.step (.operate (.enqueue sessionKey text interrupt messageId createdAt) none)) =
      { w with
        file := appendRecords w.file
          [.queued messageId.text (stripText sessionKey) text interrupt createdAt.text]
        events := w.events ++
          [.queued messageId.text (stripText sessionKey) text interrupt createdAt.text] } := by
    unfold World.step
    rw [loads]
    simp only [done]
    rfl
  have kept' := kept.step (.operate (.enqueue sessionKey text interrupt messageId createdAt) none)
  have breaks : breaksLine (InboxEvent.queued messageId.text (stripText sessionKey) text interrupt
      createdAt.text).toRecord =
        ((stripText sessionKey).any isRawBreak || text.any isRawBreak) := by
    rw [breaksLine_toRecord]
    simp [InboxEvent.texts, messageId.plain, createdAt.plain]
  have applied : applyEvent state (.queued messageId.text (stripText sessionKey) text interrupt
      createdAt.text) = _ := applyEvent_queued fresh
  rw [after] at kept' ⊢
  generalize InboxEvent.queued messageId.text (stripText sessionKey) text interrupt
    createdAt.text = event at kept' breaks applied ⊢
  constructor
  · intro listed broken
    obtain ⟨key, tokened, _⟩ := bind_eq_ok.mp accepted
    have before : listUnconsumed w.file sessionKey = .ok (state.messages.values.filter
        fun message => message.sessionKey = key && message.unconsumed) := by
      rw [listUnconsumed, tokened, loads]
      rfl
    obtain ⟨_, there, _⟩ := listed sessionKey _ before
    obtain ⟨_, loads'⟩ := loads_of_listUnconsumed there
    have whole := kept'.loads loads' _ (List.mem_append_right _ List.mem_cons_self)
    rw [breaks, broken] at whole
    cases whole
  · intro plain key pending before
    have whole : ∀ other ∈ w.events ++ [event], breaksLine other.toRecord = false := by
      refine List.forall_mem_append.mpr ⟨kept.loads loads, List.forall_mem_singleton.mpr ?_⟩
      rw [breaks]
      exact Bool.eq_false_iff.mpr plain
    obtain ⟨clean, _⟩ := kept'.folds whole
    obtain ⟨clean', _⟩ := List.forall_mem_append.mp clean
    have log : Log w.file w.events := ⟨kept.written, clean'⟩
    have log' : Log (appendRecords w.file [event]) (w.events ++ [event]) := ⟨kept'.written, clean⟩
    have loads' := log'.loadState.trans (foldlM_append_eq_ok.mpr ⟨state, log.loadState.symm.trans
      loads, foldlM_cons_eq_ok.mpr ⟨_, applied, rfl⟩⟩)
    obtain ⟨token, tokened, listing⟩ := bind_eq_ok.mp before
    obtain ⟨state', loads'', listing⟩ := bind_eq_ok.mp listing
    obtain rfl : state = state' := Except.ok.inj (loads.symm.trans loads'')
    obtain ⟨same, _⟩ := requireToken_eq_ok tokened
    subst same
    cases listing
    refine ⟨_, ?_, rfl, fun conversation => ?_⟩
    · rw [listUnconsumed, tokened]
      change (loadState (appendRecords w.file [event]) >>= _) = _
      rw [loads']
      simp only [bind, Except.bind, pure, Except.pure, values_set_of_fresh fresh,
        List.filter_append]
      congr 2
      by_cases same : stripText key = stripText sessionKey
      · simp [same, InboxMessage.unconsumed]
      · simp [same, Ne.symm same]
    · rw [applyInbox_append]
      split <;> rfl

/-- A message whose text holds a paragraph separator, on an empty inbox. -/
def separatedText : Operation :=
  .enqueue "research".toList "stop\u2029now".toList false sampleId sampleNow

/-- It is accepted, and not listed. -/
theorem separated_text_not_listed :
    separatedText.records {} [] = .ok [.queued "5f2c".toList "research".toList
        "stop\u2029now".toList false "2026-01-05T09:00:00+00:00".toList] ∧
      ¬ ListedBack [] (World.step {} (.operate separatedText none)).file
        { messageId := "5f2c".toList, sessionKey := "research".toList,
          text := "stop\u2029now".toList, interrupt := false,
          createdAt := "2026-01-05T09:00:00+00:00".toList } := by
  refine ⟨by rfl, fun listed => ?_⟩
  have ⟨_, there, _⟩ := listed "research".toList [] (by rfl)
  have ⟨state, loads⟩ := loads_of_listUnconsumed there
  have unread : (loadState (World.step {} (.operate separatedText none)).file).toOption.isNone := by
    decide +kernel
  rw [loads] at unread
  cases unread

end AutoTrade.AgentInbox
