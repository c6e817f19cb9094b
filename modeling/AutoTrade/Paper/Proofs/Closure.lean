import AutoTrade.Paper.Proofs.CorrectionsClosure
import AutoTrade.Paper.Proofs.Runs

/-!
# Accounting closure of a book

Over any sequence of records and runs, the account a book checkpoints carries
its initial cash, what its journals realize, less the dividend tax its journals
withhold.
-/

namespace AutoTrade

open DailyBroker

/-- The P&L one journal row realizes. -/
def Emission.realized : Emission → ℚ
  | .execution _ row => realizedBy row.execution
  | .correction row => row.realizedPnl
  | _ => 0

/-- The dividend tax one journal row withholds. -/
def Emission.withheld : Emission → ℚ
  | .corporateAction _ action => action.dividendTaxWithheld
  | _ => 0

/-- The realized P&L of all fills and corrections of the journals. -/
def realizedIn (journal : List Emission) : ℚ := (journal.map Emission.realized).sum

/-- The dividend tax withheld on all corporate actions of the journals. -/
def withheldIn (journal : List Emission) : ℚ := (journal.map Emission.withheld).sum

/-- Cash and the cost of every position of a checkpointed account. -/
def AccountRecord.carried (account : AccountRecord) : ℚ :=
  account.cash + account.positions.sum fun _ p => p.averageCost * (p.quantity : ℚ)

/-- What a journal accounts for. -/
def accounted (profile : BrokerProfile) (journal : List Emission) : ℚ :=
  profile.initialCash + realizedIn journal - withheldIn journal

theorem accounted_append (profile : BrokerProfile) (journal rows : List Emission) :
    accounted profile (journal ++ rows) =
      accounted profile journal + realizedIn rows - withheldIn rows := by
  simp only [accounted, realizedIn, withheldIn, List.map_append, List.sum_append]
  ring

section Rows

variable (day : Nat)

theorem realizedIn_executions (rows : List ExecutionRow) :
    realizedIn (rows.map (.execution day)) = realizedByRows rows := by
  simp [realizedIn, realizedByRows, Function.comp_def, Emission.realized]

theorem realizedIn_corrections (rows : List CorrectionRow) :
    realizedIn (rows.map .correction) = realizedByCorrections rows := by
  simp [realizedIn, realizedByCorrections, Function.comp_def, Emission.realized]

theorem realizedIn_simulated (simulated : List Simulated) :
    realizedIn (simulated.map fun x => .simulatedExecution day x.2) = 0 := by
  simp [realizedIn, Function.comp_def, Emission.realized]

theorem realizedIn_actions (actions : List CorporateAction) :
    realizedIn (actions.map (.corporateAction day)) = 0 := by
  simp [realizedIn, Function.comp_def, Emission.realized]

theorem withheldIn_actions (actions : List CorporateAction) :
    withheldIn (actions.map (.corporateAction day)) = withheldBy actions := by
  simp [withheldIn, withheldBy, Function.comp_def, Emission.withheld]

theorem realizedIn_append (l l' : List Emission) :
    realizedIn (l ++ l') = realizedIn l + realizedIn l' := by
  simp [realizedIn]

theorem withheldIn_append (l l' : List Emission) :
    withheldIn (l ++ l') = withheldIn l + withheldIn l' := by
  simp [withheldIn]

theorem withheldIn_eq_zero {rows : List Emission}
    (h : ∀ row ∈ rows, row.withheld = 0) : withheldIn rows = 0 :=
  List.sum_eq_zero fun x member => by
    obtain ⟨row, here, rfl⟩ := List.mem_map.mp member
    exact h row here

end Rows

variable {data : PaperData} {due : List StrategyOrder} {b : DailyBroker}

theorem executeAll_books {filled : DailyBroker × List Simulated} (sound : b.Sound)
    (h : executeAll data b due = .ok filled) :
    Books b filled.1 (realizedByRows (filled.2.map fun x => { execution := x.2 })) ∧
      ∀ x ∈ filled.2, x.2.Sound := by
  refine foldlM_invariant (P := fun s : DailyBroker × List Simulated =>
    Books b s.1 (realizedByRows (s.2.map fun x => { execution := x.2 })) ∧
      ∀ x ∈ s.2, x.2.Sound) ?_ h ⟨by simpa [realizedByRows] using Books.refl sound, by simp⟩
  rintro order _ s s' step ⟨books, executions⟩
  unfold executeDue at step
  obtain ⟨⟨b', e⟩, executed, rfl⟩ := except_map_eq_ok.mp step
  refine ⟨?_, fun x member => ?_⟩
  · have whole := books.trans (execute_books books.sound executed)
    simpa [realizedByRows] using whole
  · rcases List.mem_append.mp member with old | new
    · exact executions x old
    · obtain rfl := List.mem_singleton.mp new
      exact execute_sound executed

/-- What a day's fills leave: a sound account that carries what the rows realize,
rows that withhold nothing, and a measurable ledger. -/
structure DayFills.Books (b : DailyBroker) (fills : DayFills) : Prop where
  books : AutoTrade.Books b fills.broker (realizedIn fills.emissions)
  withheld : withheldIn fills.emissions = 0
  ledger : ∀ mode ∈ fills.realFills, SessionsSettled mode.sessions

variable {fills : DayFills}

theorem fillSimulated_books {realFills : Option Mode} {day : Nat} (sound : b.Sound)
    (ledger : ∀ mode ∈ realFills, SessionsSettled mode.sessions)
    (h : fillSimulated data b realFills day due = .ok fills) : fills.Books b := by
  unfold fillSimulated at h
  split at h
  · cases h
  rename_i filled simulated executed
  obtain rfl := Except.ok.inj h
  obtain ⟨books, -⟩ := executeAll_books sound executed
  have rows := realizedIn_executions day (simulated.map fun x => { execution := x.2 })
  rw [List.map_map] at rows
  refine ⟨?_, withheldIn_eq_zero ?_, ledger⟩
  · rw [← rows] at books
    exact books
  · intro row member
    obtain ⟨x, -, rfl⟩ := List.mem_map.mp member
    rfl

variable {records : Records}

theorem fillRecorded_books {late : List Nat} {journal : List Emission} {mode : Mode} {day : Nat}
    (sound : b.Sound) (ledger : SessionsSettled mode.sessions)
    (h : fillRecorded records late journal data b mode day due = .ok fills) : fills.Books b := by
  obtain ⟨simulator, simulated, settled, executed, settles, rfl⟩ := fillRecorded_eq_ok h
  obtain ⟨books, measurable⟩ :=
    settleRecorded_books sound ledger (executeAll_books sound executed).2 settles
  refine ⟨?_, withheldIn_eq_zero ?_, by simpa using measurable⟩
  · simpa only [realizedIn_append, realizedIn_simulated, realizedIn_corrections,
      realizedIn_executions, zero_add] using books
  · intro row member
    simp only [List.mem_append, List.mem_map] at member
    rcases member with (⟨x, -, rfl⟩ | ⟨x, -, rfl⟩) | ⟨x, -, rfl⟩ <;> rfl

variable {live : Live}

theorem fillDay_books {opened : DailyBroker} {day : Nat} (sound : opened.Sound)
    (ledger : ∀ mode ∈ live.state.realFills, SessionsSettled mode.sessions)
    (h : fillDay records data live opened day = .ok fills) : fills.Books opened := by
  unfold fillDay at h
  dsimp only at h
  cases following : live.state.realFills with
  | none =>
    rw [following] at h
    exact fillSimulated_books sound (by simp) h
  | some mode =>
    rw [following] at h
    have measurable := ledger mode (by simp [following])
    by_cases covered : mode.covers day
    · simp only [covered, if_true] at h
      exact fillRecorded_books sound measurable h
    · simp only [covered] at h
      exact fillSimulated_books sound (by simpa using measurable) h

/-- A run in progress carries what it has emitted. -/
structure Live.Closed (profile : BrokerProfile) (live : Live) : Prop where
  sound : live.broker.Sound
  carried_eq : live.broker.carried =
    accounted profile (live.journal ++ live.state.emissions)
  ledger : ∀ mode ∈ live.state.realFills, SessionsSettled mode.sessions

variable {profile : BrokerProfile}

theorem Live.Closed.checkpoint (h : live.Closed profile) :
    live.checkpoint.Closed profile := ⟨h.sound, h.carried_eq, h.ledger⟩

theorem Live.Closed.reconcile (h : live.Closed profile) : live.reconcile.Closed profile :=
  ⟨h.sound, by simpa [Live.reconcile] using h.carried_eq, h.ledger⟩

theorem settleSession_closed {live settled : Live} {day : Nat} (closed : live.Closed profile)
    (h : settleSession records data live day = .ok settled) : settled.Closed profile := by
  obtain ⟨opened, fills, opens, filled, rfl⟩ := settleSession_eq_ok h
  obtain ⟨openedSound, actions, recorded, openedCarries⟩ := openDay_carried closed.sound opens
  obtain ⟨books, withheld, ledger⟩ := fillDay_books openedSound closed.ledger filled
  have emitted : opened.corporateActions.drop live.broker.corporateActions.length = actions := by
    rw [recorded, List.drop_left]
  refine ⟨mark_sound books.sound, ?_, ledger⟩
  simp only [closeDay, Live.queue]
  rw [mark_carried, books.carried_eq, openedCarries, closed.carried_eq, emitted,
    ← List.append_assoc, accounted_append _ (live.journal ++ live.state.emissions)]
  simp only [realizedIn_append, withheldIn_append, realizedIn_actions, withheldIn_actions, withheld]
  simp only [realizedIn, withheldIn, List.map_cons, List.map_nil, List.sum_cons, List.sum_nil,
    Emission.realized, Emission.withheld]
  ring

/-- What a run on disk leaves: its checkpoint holds the account it carries, and
no row is queued. -/
structure Live.Kept (profile : BrokerProfile) (live : Live) : Prop where
  closed : live.Closed profile
  account_eq : (live.state.account.getD (accountRecord (DailyBroker.new profile))).carried =
    live.broker.carried
  sound : ∀ symbol p, (live.state.account.getD
    (accountRecord (DailyBroker.new profile))).positions.get? symbol = some p → p.Sound
  emissions_eq : live.state.emissions = []

theorem accountRecord_carried (b : DailyBroker) : (accountRecord b).carried = b.carried := by
  simp only [accountRecord, AccountRecord.carried, carried,
    (sortedDict_equiv b.positions).sum]
  rfl

theorem kept_checkpoint (closed : live.Closed profile) : live.checkpoint.reconcile.Kept profile :=
  { closed := closed.checkpoint.reconcile
    account_eq := accountRecord_carried live.broker
    sound := fun symbol p found => closed.sound symbol p (by
      simpa [Live.checkpoint, Live.reconcile, accountRecord, sortedDict_get?] using found)
    emissions_eq := rfl }

theorem settle_kept {live settled : Live} {day : Nat} (closed : live.Closed profile)
    (h : settle records data live day = .ok settled) : settled.Kept profile := by
  obtain ⟨session, made, rfl⟩ := except_map_eq_ok.mp h
  exact kept_checkpoint (settleSession_closed closed made)

theorem recordDecision_closed (closed : live.Closed profile) (input : RunInput)
    (inferenceAt : Instant) (orders : List StrategyOrder) :
    (recordDecision live input inferenceAt orders).Closed profile := by
  refine ⟨closed.sound, ?_, closed.ledger⟩
  simp only [recordDecision, Live.queue]
  rw [← List.append_assoc, accounted_append, ← closed.carried_eq]
  simp [realizedIn, withheldIn, Function.comp_def, Emission.realized, Emission.withheld]

variable {schedule : StrategySchedule}

theorem runFrom_kept {input : RunInput} (kept : live.Kept profile) :
    (runFrom schedule records input live).1.Kept profile := by
  refine runFrom_invariant (V := fun _ => True) schedule records input ?_ ?_ (fun _ _ => trivial) kept
  · intro v settled _ _ _ settling before
    exact settle_kept before.closed settling.settles
  · intro live decided decides before
    obtain ⟨orders, -, rfl⟩ := decideSession_eq_ok decides
    exact kept_checkpoint (recordDecision_closed before.closed _ _ _)

/-- A book whose account carries what its journals account for. -/
structure Book.Closed (profile : BrokerProfile) (book : Book) : Prop where
  carried_eq : (book.account profile).carried = accounted profile book.journal
  sound : ∀ symbol p, (book.account profile).positions.get? symbol = some p → p.Sound
  ledger : ∀ mode ∈ book.state.realFills, SessionsSettled mode.sessions
  emissions_eq : book.state.emissions = []

theorem adopt_ledger {state : PaperState}
    (ledger : ∀ mode ∈ state.realFills, SessionsSettled mode.sessions) :
    ∀ mode ∈ (adopt state records).realFills, SessionsSettled mode.sessions := by
  unfold adopt
  split_ifs
  · intro mode here
    obtain rfl := Option.some.inj here
    intro day ledger found
    simp at found
  · exact ledger

variable {book : Book}

theorem start_kept (closed : book.Closed profile) {broker : DailyBroker}
    {pending : List StrategyOrder}
    (restores : restoreBroker profile book.state.account = .ok broker) :
    (book.start broker pending).Kept profile := by
  obtain ⟨cash, positions⟩ := restoreBroker_eq_ok restores
  have restored : broker.carried = (book.account profile).carried := by
    simp only [carried, AccountRecord.carried, cash, positions]
    rfl
  have adopted := adopt_account
    (⟨book.state, broker, pending, book.journal⟩ : Live).reconcile.state (readRecords book.lines)
  refine ⟨⟨?_, ?_, adopt_ledger closed.ledger⟩, ?_, ?_, ?_⟩
  · intro symbol p found
    simp only [Book.start, Live.reconcile, positions] at found
    exact closed.sound symbol p found
  · simp only [Book.start, adopted.2]
    simp only [Live.reconcile, closed.emissions_eq, List.append_nil]
    rw [restored, closed.carried_eq]
  · simp only [Book.start, adopted.1]
    exact restored.symm
  · simp only [Book.start, adopted.1]
    exact closed.sound
  · simp only [Book.start, adopted.2]
    rfl

theorem leave_closed {left : Live} (kept : left.Kept profile) (book : Book) :
    (book.leave left).Closed profile := by
  refine ⟨?_, kept.sound, kept.closed.ledger, kept.emissions_eq⟩
  have carries := kept.closed.carried_eq
  rw [kept.emissions_eq, List.append_nil] at carries
  exact kept.account_eq.trans carries

theorem runDay_closed (closed : book.Closed profile) (input : RunInput) :
    (runDay profile schedule book input).1.Closed profile := by
  unfold runDay
  split
  · exact closed
  · rename_i live restores
    obtain ⟨broker, pending, restored, -, rfl⟩ := restore_eq_ok restores
    exact leave_closed (runFrom_kept (start_kept closed restored)) book

theorem step_closed (closed : book.Closed profile) (event : BookEvent) :
    (Book.step profile schedule book event).Closed profile := by
  cases event with
  | append line => exact ⟨closed.carried_eq, closed.sound, closed.ledger, closed.emissions_eq⟩
  | run input => exact runDay_closed closed input

theorem new_closed (profile : BrokerProfile) : Book.new.Closed profile := by
  refine ⟨?_, ?_, by simp [Book.new, PaperState.new], rfl⟩
  · simp only [Book.account, Book.new, PaperState.new, Option.getD_none, accountRecord_carried]
    simp [carried, DailyBroker.new, Dict.sum, accounted, realizedIn, withheldIn]
  · intro symbol p found
    simp [Book.account, Book.new, PaperState.new, accountRecord, sortedDict_get?,
      DailyBroker.new] at found

theorem after_closed (profile : BrokerProfile) (schedule : StrategySchedule)
    (events : List BookEvent) : (Book.after profile schedule events).Closed profile := by
  have run : ∀ (events : List BookEvent) (book : Book), book.Closed profile →
      (events.foldl (Book.step profile schedule) book).Closed profile := by
    intro events
    induction events with
    | nil => exact fun _ closed => closed
    | cons event rest ih => exact fun book closed => ih _ (step_closed closed event)
  exact run events Book.new (new_closed profile)

/-- In every state a book reaches, its account's cash and the cost of its
positions are the initial cash, the realized P&L of all fills and corrections,
less the dividend tax withheld on corporate actions. -/
theorem book_closure (profile : BrokerProfile) (schedule : StrategySchedule)
    (events : List BookEvent) :
    ((Book.after profile schedule events).account profile).cash +
        (((Book.after profile schedule events).account profile).positions.sum
          fun _ p => p.averageCost * (p.quantity : ℚ)) =
      profile.initialCash + realizedIn (Book.after profile schedule events).journal -
        withheldIn (Book.after profile schedule events).journal :=
  (after_closed profile schedule events).carried_eq

end AutoTrade
