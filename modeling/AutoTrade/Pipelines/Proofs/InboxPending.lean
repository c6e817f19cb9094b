import AutoTrade.Pipelines.Proofs.InboxTexts
import Mathlib.Algebra.Order.BigOperators.Group.List

/-!
# The cap on pending messages

`INBOX_MAX_PENDING` messages may be pending over all sessions. Only queueing looks
at the cap; reopening a session puts messages back to pending without.
-/

namespace AutoTrade.AgentInbox

open Json JsonLines

/-- How many messages are pending. -/
def pendingCount (state : InboxState) : Nat :=
  (state.messages.values.filter InboxMessage.unconsumed).length

/-- No more messages are pending than the inbox allows. -/
def Bounded (w : World) : Prop :=
  ∀ state, loadState w.file = .ok state → pendingCount state ≤ inboxMaxPending

/-- What runs of the session consumed and never landed with. -/
def consumedInVain (state : InboxState) (rows : SessionRows) (key : Text) : List InboxMessage :=
  state.messages.values.filter fun message =>
    message.sessionKey = key && message.expiredAt.isNone && message.consumedAt.isSome &&
      message.consumedBy.getD [] ∉ committedSessionRunIds rows key

/-- A reopening, as far as it gets before it is killed, finds room for the messages it puts back;
nothing is asked of another action. -/
def RoomFor (w : World) : Action → Prop
  | .operate (.reopen sessionKey _) killedAfter => ∀ state key, loadState w.file = .ok state →
    requireToken sessionKey = .ok key →
      let vain := (consumedInVain state w.rows key).length
      pendingCount state + (killedAfter.elim vain fun n => min n vain) ≤ inboxMaxPending
  | _ => True

/-- What a message counts for. -/
def share (message : InboxMessage) : Int := if message.unconsumed then 1 else 0

theorem pendingCount_eq_sum (state : InboxState) :
    (pendingCount state : Int) = state.messages.sum fun _ message => share message := by
  unfold pendingCount Dict.sum Dict.values
  induction state.messages.entries with
  | nil => rfl
  | cons entry rest ih =>
    simp only [List.map_cons, List.sum_cons, List.filter_cons, share]
    split
    · rw [List.length_cons, Nat.cast_succ, ih]
      exact add_comm _ _
    · rw [ih, zero_add]
      rfl

variable {events more : List InboxEvent} {state state' : InboxState}

/-- What a record adds to the count. -/
def delta (state : InboxState) (event : InboxEvent) : Int :=
  match event.touches?.bind state.messages.get? with
  | some message => share (after event message) - share message
  | none => 0

variable {event : InboxEvent} {message : InboxMessage}

theorem delta_of_found {messageId : Text} (touches : event.touches? = some messageId)
    (found : state.messages.get? messageId = some message) :
    delta state event = share (after event message) - share message := by
  simp only [delta, touches, Option.bind_some, found]

theorem delta_congr
    (same : ∀ messageId, event.touches? = some messageId →
      state'.messages.get? messageId = state.messages.get? messageId) :
    delta state' event = delta state event := by
  unfold delta
  cases touches : event.touches? with
  | none => rfl
  | some messageId => simp only [Option.bind_some, same messageId touches]

theorem share_nonneg (message : InboxMessage) : 0 ≤ share message := by
  unfold share
  split <;> simp

theorem pendingCount_step (folded : Folded events state) (admissible : Admissible state event)
    (old : queuedId? event = none) (applied : applyEvent state event = .ok state') :
    (pendingCount state' : Int) = pendingCount state + delta state event := by
  cases touches : event.touches? with
  | some messageId =>
    obtain ⟨message, found, here⟩ := applyEvent_touches folded admissible touches
    obtain rfl := Except.ok.inj (applied.symm.trans here)
    rw [delta_of_found touches found, pendingCount_eq_sum, pendingCount_eq_sum]
    simp only [touch, Dict.sum_set, Dict.weight, found]
    omega
  | none =>
    obtain ⟨expiredSessions, here, _⟩ := folded.session touches old
    obtain rfl := Except.ok.inj (applied.symm.trans here)
    have nothing : delta state event = 0 := by
      unfold delta
      rw [touches]
      rfl
    rw [nothing, add_zero]
    rfl

theorem pendingCount_steps (folded : Folded events state)
    (admissible : ∀ event ∈ more, Admissible state event)
    (old : ∀ event ∈ more, queuedId? event = none)
    (apart : more.Pairwise fun e f => ∀ messageId, e.touches? = some messageId →
      f.touches? ≠ some messageId)
    (applied : more.foldlM applyEvent state = .ok state') :
    (pendingCount state' : Int) = pendingCount state + (more.map (delta state)).sum := by
  induction more generalizing events state with
  | nil =>
    obtain rfl := Except.ok.inj applied
    simp
  | cons event more ih =>
    have ⟨away, apart'⟩ := List.pairwise_cons.mp apart
    have ⟨mid, first, rest⟩ := foldlM_cons_eq_ok.mp applied
    have ⟨mid', first', foldedMid, frame, _⟩ := folded.step (admissible event List.mem_cons_self)
    obtain rfl : mid = mid' := Except.ok.inj (first.symm.trans first')
    have kept : ∀ later ∈ more, ∀ messageId, later.touches? = some messageId →
        mid.messages.get? messageId = state.messages.get? messageId := by
      intro later member messageId touches
      refine frame messageId (fun same => away later member messageId same touches) ?_
      rw [old event List.mem_cons_self]
      exact nofun
    have later := ih foldedMid
      (fun later member => (admissible later (List.mem_cons_of_mem event member)).frame
        (old later (List.mem_cons_of_mem event member)) (kept later member))
      (fun later member => old later (List.mem_cons_of_mem event member)) apart' rest
    have same : more.map (delta mid) = more.map (delta state) :=
      List.map_congr_left fun e member => delta_congr (kept e member)
    have here := pendingCount_step folded (admissible event List.mem_cons_self)
      (old event List.mem_cons_self) first
    rw [later, here, same, List.map_cons, List.sum_cons, add_assoc]

theorem delta_nonpos
    (kept : ∀ messageId sessionKey reopenedAt, event ≠ .reopened messageId sessionKey reopenedAt) :
    delta state event ≤ 0 := by
  unfold delta
  split
  · rename_i message found
    have before := share_nonneg message
    cases event with
    | consumed => simpa [after, share, InboxMessage.unconsumed] using before
    | expired => simpa [after, share, InboxMessage.unconsumed] using before
    | reopened messageId sessionKey reopenedAt => exact absurd rfl (kept _ _ _)
    | _ => cases found
  · exact le_rfl

theorem delta_reopened {messageId sessionKey reopenedAt : Text}
    (found : state.messages.get? messageId = some message) (consumed : message.consumedAt.isSome) :
    delta state (.reopened messageId sessionKey reopenedAt) = 1 := by
  have spent : share message = 0 := by
    unfold share InboxMessage.unconsumed
    rw [Option.isNone_eq_false_iff.mpr consumed]
    rfl
  rw [delta_of_found rfl found, spent]
  rfl

theorem committedSessionRunIds_stripped (rows : SessionRows) (sessionKey : Text) :
    ((committedSessionRunIds rows sessionKey).map stripText).filter (· ≠ []) =
      committedSessionRunIds rows sessionKey := by
  unfold committedSessionRunIds
  have stripped : ∀ ids : List Text, (((ids.map stripText).filter (· ≠ [])).map stripText).filter
      (· ≠ []) = (ids.map stripText).filter (· ≠ []) := by
    intro ids
    induction ids with
    | nil => rfl
    | cons t ids ih =>
      by_cases blank : stripText t = []
      · simpa [blank] using ih
      · simpa [blank, stripText_stripText] using ih
  have mapped : ((rows.filter fun row => row.1 = sessionKey).map fun row => stripText row.2) =
      ((rows.filter fun row => row.1 = sessionKey).map Prod.snd).map stripText := by
    rw [List.map_map]
    rfl
  rw [mapped]
  exact stripped _

theorem enqueue_finds_room {sessionKey text messageId createdAt : Text} {interrupt : Bool}
    (accepted : enqueue state sessionKey text interrupt messageId createdAt = .ok more) :
    pendingCount state < inboxMaxPending := by
  have ⟨_, _, checked⟩ := bind_eq_ok.mp accepted
  have ⟨_, _, decided⟩ := bind_eq_ok.mp checked
  split_ifs at decided with collision shut full
  exact Nat.lt_of_not_ge full

variable {rows : SessionRows}

theorem reopen_eq {sessionKey reopenedAt key : Text} (keyed : requireToken sessionKey = .ok key) :
    reopen state sessionKey reopenedAt (committedSessionRunIds rows (stripText sessionKey)) =
      .ok ((consumedInVain state rows key).map fun message =>
        .reopened message.messageId key reopenedAt) := by
  obtain ⟨rfl, -⟩ := requireToken_eq_ok keyed
  unfold reopen
  rw [keyed, committedSessionRunIds_stripped]
  rfl

variable {killedAfter : Option Nat}

theorem pendingCount_reopen {key reopenedAt : Text} (folded : Folded events state)
    (written : more = (consumedInVain state rows key).map fun message =>
      .reopened message.messageId key reopenedAt)
    (appends : Appends state (survivors killedAfter more))
    (applied : (survivors killedAfter more).foldlM applyEvent state = .ok state') :
    pendingCount state' = pendingCount state + (survivors killedAfter more).length := by
  have sub := survivors_sublist killedAfter more
  have ones : ∀ event ∈ survivors killedAfter more,
      queuedId? event = none ∧ delta state event = 1 := by
    intro event member
    have inside := sub.subset member
    rw [written] at inside
    have ⟨message, vain, here⟩ := List.mem_map.mp inside
    subst here
    have ⟨there, spent⟩ := List.mem_filter.mp vain
    simp only [Bool.and_eq_true] at spent
    exact ⟨rfl, delta_reopened (folded.get? there) spent.1.2⟩
  have apart : (survivors killedAfter more).Pairwise fun e f => ∀ messageId,
      e.touches? = some messageId → f.touches? ≠ some messageId := by
    refine List.Pairwise.sublist sub ?_
    rw [written]
    refine List.pairwise_map.mpr ((folded.nodup.sublist List.filter_sublist).imp ?_)
    intro m n different messageId same same'
    exact different (Option.some.inj (same.trans same'.symm))
  have counted := pendingCount_steps folded appends.admissible (fun e member => (ones e member).1)
    apart applied
  have sum : ((survivors killedAfter more).map (delta state)).sum =
      (survivors killedAfter more).length := by
    rw [List.map_congr_left fun e member => (ones e member).2]
    simp
  omega

theorem pendingCount_le (folded : Folded events state) (appends : Appends state more)
    (kept : ∀ event ∈ more, queuedId? event = none ∧
      ∀ messageId sessionKey reopenedAt, event ≠ .reopened messageId sessionKey reopenedAt)
    (applied : more.foldlM applyEvent state = .ok state') :
    pendingCount state' ≤ pendingCount state := by
  have apart : more.Pairwise fun e f => ∀ messageId, e.touches? = some messageId →
      f.touches? ≠ some messageId := by
    rcases appends.apart with short | ⟨_, apart⟩
    · match more, short with
      | [], _ => exact List.Pairwise.nil
      | [event], _ => exact List.pairwise_singleton _ event
    · exact apart
  have counted := pendingCount_steps folded appends.admissible (fun e member => (kept e member).1)
    apart applied
  have sum : (more.map (delta state)).sum ≤ 0 := by
    have each : (more.map (delta state)).sum ≤ (more.map fun _ => (0 : Int)).sum :=
      List.sum_le_sum fun event member => delta_nonpos (kept event member).2
    simpa using each
  omega

theorem pendingCount_queued {messageId sessionKey text createdAt : Text} {interrupt : Bool}
    (fresh : state.messages.get? messageId = none)
    (queued : event = .queued messageId sessionKey text interrupt createdAt)
    (applied : applyEvent state event = .ok state') :
    pendingCount state' = pendingCount state + 1 := by
  subst queued
  obtain rfl := Except.ok.inj (applied.symm.trans (applyEvent_queued fresh))
  unfold pendingCount
  rw [values_set_of_fresh fresh, List.filter_append, List.length_append]
  rfl

variable {w : World}

theorem Kept.loaded (kept : Kept w) {operation : Operation}
    (loads : loadState (w.step (.operate operation killedAfter)).file = .ok state') :
    ∃ state, loadState w.file = .ok state ∧ Folded w.events state ∧
      (state' = state ∨ ∃ more, operation.records state w.rows = .ok more ∧
        Appends state (survivors killedAfter more) ∧
        (survivors killedAfter more).foldlM applyEvent state = .ok state') := by
  have kept' := kept.step (.operate operation killedAfter)
  unfold World.step at loads kept'
  cases before : loadState w.file with
  | error e =>
    simp only [before] at loads
    exact nomatch before.symm.trans loads
  | ok state =>
    have ⟨clean, state₁, folded, here⟩ := kept.folds (kept.loads before)
    obtain rfl : state = state₁ := Except.ok.inj (before.symm.trans here)
    refine ⟨state, rfl, folded, ?_⟩
    cases decided : operation.records state w.rows with
    | error e =>
      have skipped : (Except.ok state >>= fun state => operation.records state w.rows) =
          .error e := decided
      simp only [before, skipped] at loads
      exact .inl (Except.ok.inj loads).symm
    | ok more =>
      have done : (Except.ok state >>= fun state => operation.records state w.rows) =
          .ok more := decided
      simp only [before, done] at loads kept'
      have ⟨appends, clean'⟩ := folded.survived clean decided killedAfter
        fun event member => kept'.loads loads event (List.mem_append_right _ member)
      have log : Log w.file w.events := ⟨kept.written, clean⟩
      have log' := log.append clean'
      have ⟨state₂, first, rest⟩ := foldlM_append_eq_ok.mp (log'.loadState.symm.trans loads)
      obtain rfl : state = state₂ := Except.ok.inj (before.symm.trans (log.loadState.trans first))
      exact .inr ⟨more, rfl, appends, rest⟩

theorem length_survivors (killedAfter : Option Nat) (more : List InboxEvent) :
    (survivors killedAfter more).length =
      killedAfter.elim more.length fun n => min n more.length := by
  cases killedAfter with
  | none => rfl
  | some n => exact List.length_take

theorem quiet_records {operation : Operation} (decided : operation.records state rows = .ok more)
    (other : ∀ sessionKey text interrupt messageId createdAt,
      operation ≠ .enqueue sessionKey text interrupt messageId createdAt)
    (other' : ∀ sessionKey reopenedAt, operation ≠ .reopen sessionKey reopenedAt) :
    ∀ event ∈ more, queuedId? event = none ∧
      ∀ messageId sessionKey reopenedAt, event ≠ .reopened messageId sessionKey reopenedAt := by
  intro event member
  cases operation with
  | enqueue => exact absurd rfl (other _ _ _ _ _)
  | reopen => exact absurd rfl (other' _ _)
  | consume messageId sessionKey consumedBy consumedAt =>
    rcases consume_eq_ok decided with rfl | ⟨rfl, -⟩
    · cases member
    · cases List.mem_singleton.mp member
      exact ⟨rfl, nofun⟩
  | expire sessionKey expiredBy expiredAt =>
    have ⟨_, _, leftovers, closing, _, _, closes, written⟩ := expire_eq_ok decided
    rw [written] at member
    rcases List.mem_append.mp member with inside | last
    · have ⟨message, _, here⟩ := List.mem_map.mp inside
      subst here
      exact ⟨rfl, nofun⟩
    · rcases closes with rfl | rfl
      · cases last
      · cases List.mem_singleton.mp last
        exact ⟨rfl, nofun⟩
  | openSession sessionKey runId openedAt =>
    obtain rfl := Except.ok.inj decided
    unfold AgentInbox.openSession at member
    split_ifs at member
    · cases member
    · cases List.mem_singleton.mp member
      exact ⟨rfl, nofun⟩
    · cases member

theorem Kept.bounded_step (kept : Kept w) (bounded : Bounded w) {action : Action}
    (room : RoomFor w action) : Bounded (w.step action) := by
  intro state' loads
  cases action with
  | commit sessionKey runId => exact bounded state' loads
  | operate operation killedAfter =>
    have ⟨state, before, folded, result⟩ := kept.loaded loads
    have within := bounded state before
    rcases result with rfl | ⟨more, decided, appends, applied⟩
    · exact within
    · have sub := survivors_sublist killedAfter more
      by_cases queues : ∃ sessionKey text interrupt messageId createdAt,
          operation = .enqueue sessionKey text interrupt messageId createdAt
      · obtain ⟨sessionKey, text, interrupt, messageId, createdAt, rfl⟩ := queues
        have free := enqueue_finds_room decided
        have ⟨written, _, _, fresh, _⟩ := enqueue_eq_ok decided
        rw [written] at sub applied
        rcases List.sublist_singleton.mp sub with nothing | one
        · rw [nothing] at applied
          obtain rfl := Except.ok.inj applied
          exact within
        · rw [one] at applied
          have ⟨_, first, rest⟩ := foldlM_cons_eq_ok.mp applied
          obtain rfl := Except.ok.inj rest
          have counted := pendingCount_queued fresh rfl first
          omega
      · by_cases reopens : ∃ sessionKey reopenedAt, operation = .reopen sessionKey reopenedAt
        · obtain ⟨sessionKey, reopenedAt, rfl⟩ := reopens
          have ⟨key, keyed, _⟩ := bind_eq_ok.mp decided
          have written := Except.ok.inj (decided.symm.trans (reopen_eq keyed))
          have counted := pendingCount_reopen folded written appends applied
          rw [length_survivors, written, List.length_map] at counted
          rw [counted]
          exact room state key before keyed
        · refine (pendingCount_le folded appends (fun event member => ?_) applied).trans within
          refine quiet_records decided ?_ ?_ event (sub.subset member)
          · intro sessionKey text interrupt messageId createdAt same
            exact queues ⟨_, _, _, _, _, same⟩
          · exact fun sessionKey reopenedAt same => reopens ⟨_, _, same⟩

theorem Kept.room_of_bounded (kept : Kept w) {action : Action} (bounded : Bounded (w.step action)) :
    RoomFor w action := by
  cases action with
  | commit sessionKey runId => trivial
  | operate operation killedAfter =>
    cases operation with
    | reopen sessionKey reopenedAt =>
      intro state key loads keyed
      have ⟨clean, state₁, folded, here⟩ := kept.folds (kept.loads loads)
      obtain rfl : state = state₁ := Except.ok.inj (loads.symm.trans here)
      have decided : (Operation.reopen sessionKey reopenedAt).records state w.rows = _ :=
        reopen_eq keyed
      have ⟨appends, clean'⟩ := folded.records clean (fun t absurd => by cases absurd) decided
      have sub := survivors_sublist killedAfter ((consumedInVain state w.rows key).map
        fun message => InboxEvent.reopened message.messageId key reopenedAt.text)
      have ⟨state', applied, _⟩ := folded.appends (appends.sublist sub)
      have log : Log w.file w.events := ⟨kept.written, clean⟩
      have log' := log.append fun event member => clean' event (sub.subset member)
      have loads' := log'.loadState.trans (foldlM_append_eq_ok.mpr
        ⟨state, log.loadState.symm.trans loads, applied⟩)
      have done : (Except.ok state >>= fun state =>
          (Operation.reopen sessionKey reopenedAt).records state w.rows) = _ := decided
      have counted := pendingCount_reopen folded rfl (appends.sublist sub) applied
      rw [length_survivors, List.length_map] at counted
      have within : pendingCount state' ≤ inboxMaxPending := by
        apply bounded
        unfold World.step
        rw [loads]
        simp only [done]
        exact loads'
      rw [counted] at within
      exact within
    | _ => trivial

/-- No more messages are ever pending than the inbox allows exactly if every reopening on the way
finds room for what it puts back. -/
theorem pending_bounded_iff (actions : List Action) :
    (∀ before later, actions = before ++ later → Bounded (World.run {} before)) ↔
      ∀ before action later, actions = before ++ action :: later →
        RoomFor (World.run {} before) action := by
  constructor
  · intro bounded before action later split
    apply (kept_start.run before).room_of_bounded
    have there := bounded (before ++ [action]) later (by simpa using split)
    rwa [World.run, List.foldl_append] at there
  · intro room before
    induction before using List.reverseRecOn with
    | nil =>
      intro _ _ state loads
      obtain rfl := Except.ok.inj loads
      exact Nat.zero_le _
    | append_singleton before action ih =>
      intro later split
      rw [List.append_assoc] at split
      rw [World.run, List.foldl_append]
      exact (kept_start.run before).bounded_step (ih _ split) (room before action later split)

/-- The operations of a run on the state they leave, while nothing is killed. -/
def operated (rows : SessionRows) : InboxState → List Operation → Option InboxState
  | state, [] => some state
  | state, operation :: later =>
    match operation.records state rows with
    | .error _ => none
    | .ok more =>
      match more.foldlM applyEvent state with
      | .error _ => none
      | .ok state => operated rows state later

theorem Kept.operated (kept : Kept w) (loads : loadState w.file = .ok state)
    {operations : List Operation}
    (unbroken : ∀ operation ∈ operations, ∀ t ∈ operation.written, t.any isRawBreak = false)
    (ends : operated w.rows state operations = some state') :
    loadState (w.run (operations.map fun operation => .operate operation none)).file =
      .ok state' := by
  induction operations generalizing w state with
  | nil =>
    obtain rfl := Option.some.inj ends
    exact loads
  | cons operation later ih =>
    unfold AgentInbox.operated at ends
    split at ends
    · cases ends
    · rename_i more decided
      split at ends
      · cases ends
      · rename_i next applied
        have ⟨clean, state₁, folded, here⟩ := kept.folds (kept.loads loads)
        obtain rfl : state = state₁ := Except.ok.inj (loads.symm.trans here)
        have ⟨_, clean'⟩ := folded.records clean (unbroken operation List.mem_cons_self) decided
        have log : Log w.file w.events := ⟨kept.written, clean⟩
        have loads' := (log.append clean').loadState.trans (foldlM_append_eq_ok.mpr
          ⟨state, log.loadState.symm.trans loads, applied⟩)
        have done : (Except.ok state >>= fun state => operation.records state w.rows) =
            .ok more := decided
        have kept' := kept.step (.operate operation none)
        have after : w.step (.operate operation none) =
            { w with file := appendRecords w.file more, events := w.events ++ more } := by
          unfold World.step
          rw [loads]
          simp only [done]
          rfl
        rw [List.map_cons, World.run, List.foldl_cons]
        rw [after] at kept' ⊢
        exact ih kept' loads' (fun op member => unbroken op (List.mem_cons_of_mem _ member)) ends

/-- The names of the messages. -/
def messageName (i : Fin 33) : Token :=
  ⟨[Char.ofNat (65 + i)], (by decide : ∀ i : Fin 33, stripText [Char.ofNat (65 + i)] ≠ []) i,
    (by decide : ∀ i : Fin 33, [Char.ofNat (65 + i)].any isRawBreak = false) i⟩

/-- A run takes the 32 messages that may be pending and fails, a message is queued meanwhile, and
the session is reopened. -/
def retakenBatch : List Operation :=
  let queued (i : Fin 33) : Operation :=
    .enqueue "research".toList "hold".toList false (messageName i) sampleNow
  let batch := (List.finRange 33).take 32
  batch.map queued ++
    batch.map (fun i => .consume (messageName i).text "research".toList "run_1".toList sampleNow) ++
    [queued 32, .reopen "research".toList sampleNow]

/-- Then 33 messages are pending. -/
theorem retaken_batch_overfills : ¬ ∀ actions, Bounded (World.run {} actions) := by
  intro bounded
  have loads : loadState ({} : World).file = .ok {} := rfl
  have overfilled : (operated [] {} retakenBatch).any fun state =>
      inboxMaxPending < pendingCount state := by
    decide +kernel
  have unbroken : ∀ operation ∈ retakenBatch, ∀ t ∈ operation.written,
      t.any isRawBreak = false := by
    decide +kernel
  cases ends : operated [] {} retakenBatch with
  | none =>
    rw [ends] at overfilled
    cases overfilled
  | some state =>
    rw [ends] at overfilled
    have full : inboxMaxPending < pendingCount state := of_decide_eq_true overfilled
    have within := bounded _ state (kept_start.operated loads unbroken ends)
    omega

end AutoTrade.AgentInbox
