import AutoTrade.Paper.Proofs.Closure
import AutoTrade.Paper.Proofs.SimulatedSession

/-!
# A book recorded as simulated

A book whose every record says "simulated" goes through the same sessions as
the book that never switched: the same account after each, the same rows in its
journals, no corrections.
-/

namespace AutoTrade

open DailyBroker

/-- A journal row as the book that never switched has it: no simulated track. -/
def Emission.unswitched : Emission → Option Emission
  | .simulatedExecution _ _ => none
  | .equity row => some (.equity { row with simulatedEquity := none })
  | row => some row

/-- The state of a book as the book that never switched has it. -/
def PaperState.unswitched (state : PaperState) : PaperState := { state with realFills := none }

/-- Every order the session settles has an outcome on record, under its own date
and under the session's. -/
def Visit.recorded (v : Visit) : Bool :=
  v.due.all fun order => v.records.hasOutcome (orderSession order) (orderKey order) &&
    v.records.hasOutcome v.day (orderKey order)

/-- The simulated account's cash stays non-negative as it takes the due orders. -/
def Visit.funded (v : Visit) : Bool :=
  (simulatedAccounts v.data v.opened v.due).all fun account => 0 ≤ account.cash

/-- The orders the session settles are keys `parse_key` reads, stand in the order
of their clocks and fill beyond the tolerance of `record_fill`'s band. -/
def Visit.regular (v : Visit) : Bool :=
  v.due.all (fun order => (orderKey order).parses &&
    pricedBeyondBand v.data v.opened.profile order) &&
    decide (v.due.Pairwise fun x y => x.executeAt.minute ≤ y.executeAt.minute)

/-- Two runs that differ in nothing but the switch: `a` follows records that say
"simulated", `b` never switched. -/
structure Twin (records : Records) (a b : Live) : Prop where
  broker_eq : b.broker = a.broker
  pending_eq : b.pending = a.pending
  state_eq : b.state = a.state.unswitched
  emissions_eq : a.state.emissions = []
  journal_eq : b.journal = a.journal.filterMap Emission.unswitched
  corrections_eq : correctionsOf a.journal = []
  ledger : ∀ mode ∈ a.state.realFills, SessionsReproduced records mode.sessions

theorem filterMap_unswitched_actions (day : Nat) (actions : List CorporateAction) :
    (actions.map (Emission.corporateAction day)).filterMap Emission.unswitched =
      actions.map (.corporateAction day) := by
  simp [List.filterMap_map, Function.comp_def, Emission.unswitched]

theorem filterMap_unswitched_simulated (day : Nat) (simulated : List Simulated) :
    (simulated.map fun x : Simulated => Emission.simulatedExecution day x.2).filterMap Emission.unswitched =
      [] := by
  simp [List.filterMap_map, Function.comp_def, Emission.unswitched]

theorem filterMap_unswitched_orders (day : Nat) (orders : List StrategyOrder) :
    (orders.map fun order => Emission.order day order.toRecord).filterMap Emission.unswitched =
      orders.map fun order => .order day order.toRecord := by
  simp [List.filterMap_map, Function.comp_def, Emission.unswitched]

/-- The rows the day's fills queue, as the book that never switched queues them. -/
structure FillsTwin (records : Records) (a b : DayFills) : Prop where
  broker_eq : b.broker = a.broker
  emissions_eq : b.emissions = a.emissions.filterMap Emission.unswitched
  simulatedEquity_eq : b.simulatedEquity = none
  corrections_eq : correctionsOf a.emissions = []
  ledger : ∀ mode ∈ a.realFills, SessionsReproduced records mode.sessions
  unswitched : b.realFills = none

theorem filterMap_unswitched_rows (day : Nat) (simulated : List Simulated) :
    (simulated.map fun x : Simulated => Emission.execution day { execution := x.2 }).filterMap
      Emission.unswitched = simulated.map fun x => .execution day { execution := x.2 } := by
  simp [List.filterMap_map, Function.comp_def, Emission.unswitched]

variable {data : PaperData} {records : Records} {opened : DailyBroker} {day : Nat}
  {due : List StrategyOrder}

theorem fillSimulated_twin {realFills : Option Mode}
    (ledger : ∀ mode ∈ realFills, SessionsReproduced records mode.sessions) :
    (∃ e e', fillSimulated data opened realFills day due = .error e ∧
      fillSimulated data opened none day due = .error e') ∨
    ∃ fillsA fillsB, fillSimulated data opened realFills day due = .ok fillsA ∧
      fillSimulated data opened none day due = .ok fillsB ∧ FillsTwin records fillsA fillsB := by
  unfold fillSimulated
  cases executeAll data opened due with
  | error e => exact .inl ⟨_, _, rfl, rfl⟩
  | ok filled =>
    obtain ⟨filled, simulated⟩ := filled
    refine .inr ⟨_, _, rfl, rfl, ⟨rfl, (filterMap_unswitched_rows day simulated).symm, rfl, ?_,
      ledger, rfl⟩⟩
    refine correctionsOf_eq_nil fun row member c => ?_
    obtain ⟨x, -, rfl⟩ := List.mem_map.mp member
    exact Emission.noConfusion

theorem fillRecorded_twin {a : Live} {mode : Mode} (asSimulated : records.Simulated)
    (codes : ∀ k r, records.fills.get? k = some r → k.2.parses = true)
    (reproduced : SessionsReproduced records mode.sessions)
    (recorded : (⟨records, data, a, opened, day⟩ : Visit).recorded = true)
    (funded : (⟨records, data, a, opened, day⟩ : Visit).funded = true)
    (regular : (⟨records, data, a, opened, day⟩ : Visit).regular = true)
    (dueEq : a.pending.filter (fun order => order.executeAt ≤ Instant.dayEnd day) = due) :
    (∃ e e', fillRecorded records (postHocSessions a.state.decisions) a.journal data opened mode
        day due = .error e ∧ fillSimulated data opened none day due = .error e') ∨
    ∃ fillsA fillsB, fillRecorded records (postHocSessions a.state.decisions) a.journal data opened
        mode day due = .ok fillsA ∧
      fillSimulated data opened none day due = .ok fillsB ∧ FillsTwin records fillsA fillsB := by
  unfold fillRecorded fillSimulated
  cases executed : executeAll data opened due with
  | error e => exact .inl ⟨_, _, rfl, rfl⟩
  | ok filled =>
    obtain ⟨simulator, simulated⟩ := filled
    simp only [Visit.recorded, Visit.funded, Visit.regular, Visit.due, dueEq, List.all_eq_true,
      Bool.and_eq_true, decide_eq_true_eq] at recorded funded regular
    obtain ⟨orders, runs⟩ := executeAll_executed (P := fun account => 0 ≤ account.cash)
      funded executed
    have reproducible : ∀ x ∈ simulated,
        Reproducible records data opened.profile day x.1 := fun x member => by
      have inDue : x.1 ∈ due := orders ▸ List.mem_map_of_mem member
      exact ⟨(recorded _ inDue).1, (recorded _ inDue).2, (regular.1 _ inDue).1,
        (regular.1 _ inDue).2⟩
    have sorted : simulated.Pairwise fun x y => x.key.clock ≤ y.key.clock := by
      have := regular.2
      rw [← orders, List.pairwise_map] at this
      exact this
    obtain ⟨settled, settles, account, rows, none, -, ledger⟩ :=
      settleRecorded_reproduces (postHocSessions a.state.decisions)
        (corporateHistory a.journal) asSimulated reproduced reproducible sorted codes
        runs
    dsimp only
    rw [settles]
    refine .inr ⟨_, _, rfl, rfl, ⟨account.symm, ?_, rfl, ?_, by simpa using ledger, rfl⟩⟩
    · simp only [none, rows, List.map_nil, List.append_nil, List.filterMap_append,
        filterMap_unswitched_simulated, List.nil_append, List.map_map]
      exact (filterMap_unswitched_rows day simulated).symm
    · refine correctionsOf_eq_nil fun row member c => ?_
      simp only [none, List.map_nil, List.append_nil, List.mem_append, List.mem_map] at member
      rcases member with ⟨x, -, rfl⟩ | ⟨x, -, rfl⟩ <;> exact Emission.noConfusion

/-- What every session of a run in step must meet. -/
structure VisitHolds (v : Visit) : Prop where
  recorded : v.follows = true → v.recorded = true
  funded : v.follows = true → v.funded = true
  regular : v.follows = true → v.regular = true

variable {a b : Live} {recordsA : Records}

theorem fillDay_twin (recordsB : Records) (twin : Twin recordsA a b)
    (asSimulated : recordsA.Simulated)
    (codes : ∀ k r, recordsA.fills.get? k = some r → k.2.parses = true)
    (holds : VisitHolds ⟨recordsA, data, a, opened, day⟩) :
    (∃ e e', fillDay recordsA data a opened day = .error e ∧
      fillDay recordsB data b opened day = .error e') ∨
    ∃ fillsA fillsB, fillDay recordsA data a opened day = .ok fillsA ∧
      fillDay recordsB data b opened day = .ok fillsB ∧ FillsTwin recordsA fillsA fillsB := by
  have never : b.state.realFills = none := by rw [twin.state_eq]; rfl
  unfold fillDay
  rw [never, twin.pending_eq]
  cases switch : a.state.realFills with
  | none => exact fillSimulated_twin (by simp)
  | some mode =>
    have reproduced := twin.ledger mode (by simp [switch])
    by_cases covered : mode.covers day = true
    · have follows : (⟨recordsA, data, a, opened, day⟩ : Visit).follows = true := by
        simpa [Visit.follows, switch] using covered
      simp only [covered, if_true]
      exact fillRecorded_twin asSimulated codes reproduced (holds.recorded follows)
        (holds.funded follows) (holds.regular follows) rfl
    · simp only [covered]
      exact fillSimulated_twin (by simpa using reproduced)

theorem closeDay_twin {fillsA fillsB : DayFills} (twin : Twin records a b)
    (fills : FillsTwin records fillsA fillsB) :
    Twin records (closeDay data a opened fillsA day).checkpoint.reconcile
      (closeDay data b opened fillsB day).checkpoint.reconcile := by
  have empty : b.state.emissions = [] := by
    rw [twin.state_eq]
    exact twin.emissions_eq
  refine ⟨?_, ?_, ?_, rfl, ?_, ?_, fills.ledger⟩
  · simp only [closeDay, Live.queue, Live.checkpoint, Live.reconcile, fills.broker_eq]
  · simp only [closeDay, Live.queue, Live.checkpoint, Live.reconcile, twin.pending_eq]
  · simp only [closeDay, Live.queue, Live.checkpoint, Live.reconcile, twin.state_eq,
      twin.pending_eq, fills.broker_eq, fills.unswitched, PaperState.unswitched]
  · simp only [closeDay, Live.queue, Live.checkpoint, Live.reconcile, twin.emissions_eq, empty,
      List.nil_append, List.filterMap_append, twin.journal_eq, twin.broker_eq,
      filterMap_unswitched_actions, fills.emissions_eq, fills.broker_eq, fills.simulatedEquity_eq]
    simp [Emission.unswitched]
  · simp only [closeDay, Live.queue, Live.checkpoint, Live.reconcile, twin.emissions_eq,
      List.nil_append, correctionsOf_append, twin.corrections_eq, fills.corrections_eq,
      correctionsOf_actions]
    rfl

theorem settle_twin (recordsB : Records) (twin : Twin recordsA a b)
    (asSimulated : recordsA.Simulated)
    (codes : ∀ k r, recordsA.fills.get? k = some r → k.2.parses = true)
    (holds : ∀ opened, a.broker.openDay day (data.market.bars day)
      (data.market.distributions day) = .ok opened → VisitHolds ⟨recordsA, data, a, opened, day⟩) :
    (∃ e e', settle recordsA data a day = .error e ∧ settle recordsB data b day = .error e') ∨
    ∃ a' b', settle recordsA data a day = .ok a' ∧ settle recordsB data b day = .ok b' ∧
      Twin recordsA a' b' := by
  unfold settle settleSession
  rw [twin.broker_eq]
  cases opens : a.broker.openDay day (data.market.bars day) (data.market.distributions day) with
  | error e => exact .inl ⟨_, _, rfl, rfl⟩
  | ok opened =>
    dsimp only
    have here := holds opened opens
    rcases fillDay_twin recordsB twin asSimulated codes here with
      ⟨e, e', left, right⟩ | ⟨fillsA, fillsB, left, right, fills⟩
    · rw [left, right]
      exact .inl ⟨_, _, rfl, rfl⟩
    · rw [left, right]
      exact .inr ⟨_, _, rfl, rfl, closeDay_twin twin fills⟩

theorem settleAll_twin (recordsB : Records) {days : List Nat} (twin : Twin recordsA a b)
    (asSimulated : recordsA.Simulated)
    (codes : ∀ k r, recordsA.fills.get? k = some r → k.2.parses = true)
    (holds : ∀ v ∈ settleVisits recordsA data a days, VisitHolds v) :
    Twin recordsA (settleAll recordsA data a days).1 (settleAll recordsB data b days).1 ∧
      ((settleAll recordsA data a days).2 = none ↔ (settleAll recordsB data b days).2 = none) := by
  induction days generalizing a b with
  | nil => exact ⟨twin, Iff.rfl⟩
  | cons day days ih =>
    have first : ∀ opened, a.broker.openDay day (data.market.bars day)
        (data.market.distributions day) = .ok opened →
        VisitHolds ⟨recordsA, data, a, opened, day⟩ := fun opened opens =>
      holds _ (by rw [settleVisits, opens]; exact List.mem_cons_self)
    unfold settleAll
    rcases settle_twin recordsB twin asSimulated codes first with
      ⟨e, e', left, right⟩ | ⟨a', b', left, right, after⟩
    · rw [left, right]
      exact ⟨twin, by simp⟩
    · rw [left, right]
      refine ih after fun v member => holds v ?_
      obtain ⟨opened, -, opens, -⟩ := settleSession_eq_ok (except_map_eq_ok.mp left).choose_spec.1
      rw [settleVisits, opens]
      dsimp only
      rw [left]
      exact List.mem_cons_of_mem _ member

section Unswitched

variable (journal : List Emission)

theorem correctionsOf_unswitched :
    correctionsOf (journal.filterMap Emission.unswitched) = correctionsOf journal := by
  rw [correctionsOf, List.filterMap_filterMap]
  exact List.filterMap_congr fun row _ => by cases row <;> rfl

theorem executionsOf_unswitched :
    executionsOf (journal.filterMap Emission.unswitched) = executionsOf journal := by
  rw [executionsOf, List.filterMap_filterMap]
  exact List.filterMap_congr fun row _ => by cases row <;> rfl

theorem equityOf_unswitched :
    equityOf (journal.filterMap Emission.unswitched) = equityOf journal := by
  rw [equityOf, List.filterMap_filterMap]
  exact List.filterMap_congr fun row _ => by cases row <;> rfl

end Unswitched

theorem evidence_twin (twin : Twin records a b) :
    evidence b.journal b.state.realFills = evidence a.journal a.state.realFills := by
  unfold evidence
  rw [twin.journal_eq, correctionsOf_unswitched, executionsOf_unswitched, equityOf_unswitched,
    twin.corrections_eq]
  simp

theorem decideSession_twin (schedule : StrategySchedule) (input : RunInput)
    (twin : Twin records a b) :
    (∃ e, decideSession schedule input a = .error e ∧ decideSession schedule input b = .error e) ∨
    ∃ a' b', decideSession schedule input a = .ok a' ∧ decideSession schedule input b = .ok b' ∧
      Twin records a' b' := by
  have decisions : b.state.decisions = a.state.decisions := by rw [twin.state_eq]; rfl
  have empty : b.state.emissions = [] := by
    rw [twin.state_eq]
    exact twin.emissions_eq
  unfold decideSession
  rw [decisions, twin.broker_eq]
  cases a.state.decisions.mapM fun row => ask input row.inferenceAt row.account with
  | error e => exact .inl ⟨e, rfl, rfl⟩
  | ok _ =>
    dsimp only
    cases ask input (schedule.at input.tradeDate) a.broker.accountSnapshot with
    | error e => exact .inl ⟨e, rfl, rfl⟩
    | ok orders =>
      refine .inr ⟨_, _, rfl, rfl, ⟨twin.broker_eq, ?_, ?_, rfl, ?_, ?_, twin.ledger⟩⟩
      · simp only [recordDecision, Live.queue, Live.checkpoint, Live.reconcile, twin.pending_eq]
      · simp only [recordDecision, Live.queue, Live.checkpoint, Live.reconcile, twin.pending_eq,
          twin.state_eq, twin.broker_eq, PaperState.unswitched]
      · simp only [recordDecision, Live.queue, Live.checkpoint, Live.reconcile, twin.emissions_eq,
          empty, List.nil_append, twin.journal_eq, List.filterMap_append,
          filterMap_unswitched_orders]
      · simp only [recordDecision, Live.queue, Live.checkpoint, Live.reconcile, twin.emissions_eq,
          List.nil_append, correctionsOf_append, twin.corrections_eq]
        simp [correctionsOf, List.filterMap_map]

variable {schedule : StrategySchedule} {input : RunInput}

theorem decideIfDue_twin (twin : Twin records a b) :
    Twin records (decideIfDue schedule input data a).1 (decideIfDue schedule input data b).1 := by
  have due : decisionDue schedule b.state data input.tradeDate =
      decisionDue schedule a.state data input.tradeDate := by rw [twin.state_eq]; rfl
  unfold decideIfDue
  rw [evidence_twin twin, due]
  split_ifs
  · rcases decideSession_twin schedule input twin with
      ⟨e, left, right⟩ | ⟨a', b', left, right, after⟩
    · rw [left, right]
      exact twin
    · rw [left, right]
      exact after
  · exact twin
  · exact twin

theorem advance_twin {recordsA recordsB : Records} (twin : Twin recordsA a b)
    (asSimulated : recordsA.Simulated)
    (codes : ∀ k r, recordsA.fills.get? k = some r → k.2.parses = true)
    (holds : ∀ v ∈ settleVisits recordsA data a (toSettle a.state data.sessions input.tradeDate),
      checkAdvance schedule a.state data input.tradeDate = .ok () → VisitHolds v) :
    Twin recordsA (advance schedule recordsA input data a).1
      (advance schedule recordsB input data b).1 := by
  have check : checkAdvance schedule b.state data input.tradeDate =
      checkAdvance schedule a.state data input.tradeDate := by rw [twin.state_eq]; rfl
  have days : toSettle b.state data.sessions input.tradeDate =
      toSettle a.state data.sessions input.tradeDate := by rw [twin.state_eq]; rfl
  unfold advance
  rw [check, days]
  cases checked : checkAdvance schedule a.state data input.tradeDate with
  | error e => exact twin
  | ok _ =>
    dsimp only
    obtain ⟨after, stopped⟩ := settleAll_twin recordsB twin asSimulated codes
      fun v member => holds v member checked
    cases left : settleAll recordsA data a (toSettle a.state data.sessions input.tradeDate) with
    | mk a' errorA =>
      cases right : settleAll recordsB data b (toSettle a.state data.sessions input.tradeDate) with
      | mk b' errorB =>
        rw [left, right] at after stopped
        cases errorA with
        | none =>
          obtain rfl := stopped.mp rfl
          exact decideIfDue_twin after
        | some e =>
          cases errorB with
          | none => exact absurd (stopped.mpr rfl) (by simp)
          | some e' => exact after

variable {pending : List StrategyOrder}

theorem checkRun_ok {state : PaperState} (recordsB : Records)
    (h : checkRun state recordsA pending input = .ok ()) :
    checkRun state.unswitched recordsB pending input = .ok () := by
  unfold checkRun at h ⊢
  dsimp only [PaperState.unswitched]
  split at h
  · cases h
  · split_ifs at h with early
    rw [if_neg early]
    rfl

theorem checkRun_error {state : PaperState} (recordsB : Records) {e : PaperError}
    (h : checkRun state recordsA pending input = .error e) :
    (∃ missing, e = .awaitingFills missing) ∨
      checkRun state.unswitched recordsB pending input = .error e := by
  unfold checkRun at h ⊢
  dsimp only [PaperState.unswitched]
  split at h
  · exact .inr h
  · split_ifs at h with early
    · rw [if_pos early]
      exact .inr h
    · left
      unfold checkRecorded at h
      split at h
      · cases h
      · split at h
        · cases h
        · exact ⟨_, (Except.error.inj h).symm⟩

theorem runFrom_twin {recordsA recordsB : Records} (twin : Twin recordsA a b)
    (asSimulated : recordsA.Simulated)
    (codes : ∀ k r, recordsA.fills.get? k = some r → k.2.parses = true)
    (unrefused : ∀ missing, (runFrom schedule recordsA input a).2 ≠ some (.awaitingFills missing))
    (holds : ∀ v ∈ runVisits schedule recordsA input a, VisitHolds v) :
    Twin recordsA (runFrom schedule recordsA input a).1
      (runFrom schedule recordsB input b).1 := by
  have decisions : b.state.decisions = a.state.decisions := by rw [twin.state_eq]; rfl
  have never : b.state.realFills = none := by rw [twin.state_eq]; rfl
  unfold runFrom at unrefused ⊢
  unfold runVisits at holds
  rw [decisions]
  split_ifs with decided
  · exact twin
  rw [if_neg decided] at unrefused holds
  rw [twin.pending_eq, twin.state_eq]
  cases checked : checkRun a.state recordsA a.pending input with
  | error e =>
    rcases checkRun_error recordsB checked with ⟨missing, rfl⟩ | refused
    · rw [checked] at unrefused
      exact absurd rfl (unrefused missing)
    · rw [refused]
      exact twin
  | ok _ =>
    rw [checkRun_ok recordsB checked]
    rw [checked] at holds
    cases data : input.data with
    | none => exact twin
    | some data' =>
      rw [data] at holds
      dsimp only at holds ⊢
      refine advance_twin twin asSimulated codes fun v member checkedAdvance => holds v ?_
      rw [checkedAdvance]
      exact member

/-- Two books that differ in nothing but the switch. -/
structure SameBook (a b : Book) : Prop where
  /-- Cash, positions, average costs and lots, the pending orders and the decisions. -/
  state_eq : b.state = a.state.unswitched
  /-- The executions, the equity curve and every other row. -/
  journal_eq : b.journal = a.journal.filterMap Emission.unswitched
  corrections_eq : correctionsOf a.journal = []

/-- Two books in step, with what keeps them so. -/
structure BookTwin (a b : Book) : Prop where
  same : SameBook a b
  lines_eq : b.lines = []
  emissions_eq : a.state.emissions = []
  simulated : ∀ line ∈ a.lines, line.isSimulated = true
  ledger : ∀ mode ∈ a.state.realFills, SessionsReproduced (readRecords a.lines) mode.sessions

theorem adopt_unswitched (state : PaperState) (records : Records) :
    (adopt state records).unswitched = state.unswitched := by
  unfold adopt
  split_ifs <;> rfl

theorem start_twin {a b : Book} (twin : BookTwin a b) (broker : DailyBroker)
    (pending : List StrategyOrder) :
    Twin (readRecords a.lines) (a.start broker pending) (b.start broker pending) := by
  have never : adopt (⟨b.state, broker, pending, b.journal⟩ : Live).reconcile.state
      (readRecords b.lines) = (⟨b.state, broker, pending, b.journal⟩ : Live).reconcile.state := by
    simp [adopt, twin.lines_eq, readRecords, Records.empty]
  have empty : b.state.emissions = [] := by
    rw [twin.same.state_eq]
    exact twin.emissions_eq
  have adopted := adopt_account (⟨a.state, broker, pending, a.journal⟩ : Live).reconcile.state
    (readRecords a.lines)
  refine ⟨rfl, rfl, ?_, adopted.2, ?_, ?_, ?_⟩
  · simp only [Book.start, never, adopt_unswitched]
    simp only [Live.reconcile, twin.same.state_eq]
    rfl
  · simp only [Book.start, Live.reconcile, empty, twin.emissions_eq, List.append_nil,
      twin.same.journal_eq]
  · simp only [Book.start, Live.reconcile, twin.emissions_eq, List.append_nil,
      twin.same.corrections_eq]
  · simp only [Book.start, adopt]
    split_ifs
    · intro mode here
      obtain rfl := Option.some.inj here
      intro day ledger found
      simp at found
    · exact twin.ledger

theorem leave_twin {a b : Book} (twin : BookTwin a b) {a' b' : Live}
    (lives : Twin (readRecords a.lines) a' b') : BookTwin (a.leave a') (b.leave b') :=
  ⟨⟨lives.state_eq, lives.journal_eq, lives.corrections_eq⟩, twin.lines_eq, lives.emissions_eq,
    twin.simulated, lives.ledger⟩

variable {profile : BrokerProfile}

theorem runDay_twin {a b : Book} (twin : BookTwin a b)
    (unrefused : ∀ missing, (runDay profile schedule a input).2 ≠ some (.awaitingFills missing))
    (holds : ∀ v ∈ a.visits profile schedule (.run input), VisitHolds v) :
    BookTwin (runDay profile schedule a input).1 (runDay profile schedule b input).1 := by
  unfold runDay at unrefused ⊢
  unfold Book.visits at holds
  dsimp only at holds
  have account : b.state.account = a.state.account := by rw [twin.same.state_eq]; rfl
  have pending : b.state.pendingOrders = a.state.pendingOrders := by rw [twin.same.state_eq]; rfl
  cases restored : a.restore profile with
  | error e =>
    have refused : b.restore profile = .error e := by
      unfold Book.restore at restored ⊢
      rw [account, pending]
      cases broker : restoreBroker profile a.state.account with
      | error e' => simpa [broker, bind, Except.bind] using restored
      | ok broker' =>
        cases orders : restoreOrders a.state.pendingOrders with
        | error e' => simpa [broker, orders, bind, Except.bind] using restored
        | ok orders' => simp [broker, orders, bind, Except.bind] at restored
    rw [refused]
    exact twin
  | ok live =>
    obtain ⟨broker, orders, restoredBroker, restoredOrders, rfl⟩ := restore_eq_ok restored
    have other : b.restore profile = .ok (b.start broker orders) := by
      unfold Book.restore
      rw [account, pending, restoredBroker, restoredOrders]
      rfl
    rw [other]
    rw [restored] at unrefused holds
    exact leave_twin twin (runFrom_twin (start_twin twin broker orders)
      (readRecords_simulated twin.simulated) (fun _ _ => readRecords_parse a.lines)
      unrefused holds)

theorem append_twin {a b : Book} {line : RecordLine} (twin : BookTwin a b)
    (simulated : line.isSimulated = true) : BookTwin { a with lines := a.lines ++ [line] } b := by
  refine ⟨⟨twin.same.state_eq, twin.same.journal_eq, twin.same.corrections_eq⟩, twin.lines_eq,
    twin.emissions_eq, ?_, ?_⟩
  · intro l member
    rcases List.mem_append.mp member with old | new
    · exact twin.simulated l old
    · exact List.mem_singleton.mp new ▸ simulated
  · intro mode here day ledger found key entry inLedger
    have entry := twin.ledger mode here day ledger found key entry inLedger
    refine ⟨entry.real_eq, fun ordered => ?_⟩
    rw [readRecords_append]
    exact Records.hasOutcome_read (entry.hasOutcome ordered) line

/-- An event after which a switched book still only has records that say "simulated". -/
def BookEvent.isSimulated : BookEvent → Bool
  | .append line => line.isSimulated
  | .run _ => true

theorem after_twin {events : List BookEvent} {a b : Book} (twin : BookTwin a b)
    (simulated : ∀ event ∈ events, event.isSimulated = true)
    (unrefused : ∀ missing, .awaitingFills missing ∉ a.errorsAlong profile schedule events)
    (holds : ∀ v ∈ a.visitsAlong profile schedule events, VisitHolds v) :
    BookTwin (events.foldl (Book.step profile schedule) a)
      ((events.filter BookEvent.isRun).foldl (Book.step profile schedule) b) := by
  induction events generalizing a b with
  | nil => exact twin
  | cons event events ih =>
    have later := fun (a' b' : Book) (step : a' = a.step profile schedule event)
        (twin' : BookTwin a' b') => ih twin'
      (fun e member => simulated e (List.mem_cons_of_mem _ member))
      (fun missing member => unrefused missing (by
        rw [Book.errorsAlong]
        exact List.mem_append_right _ (step ▸ member)))
      (fun v member => holds v (by
        rw [Book.visitsAlong]
        exact List.mem_append_right _ (step ▸ member)))
    cases event with
    | append line =>
      exact later _ b rfl (append_twin twin (simulated _ List.mem_cons_self))
    | run input =>
      refine later _ _ rfl (runDay_twin twin (fun missing refused => unrefused missing ?_)
        fun v member => holds v ?_)
      · rw [Book.errorsAlong, Book.error, refused]
        exact List.mem_append_left _ (by simp)
      · rw [Book.visitsAlong]
        exact List.mem_append_left _ member

theorem new_twin : BookTwin Book.new Book.new :=
  ⟨⟨rfl, rfl, rfl⟩, rfl, rfl, by simp [Book.new], by simp [Book.new, PaperState.new]⟩

/-- A book whose records all say "simulated" is the book that never switched, as
long as the simulated cash stays non-negative and every session it settles is
regular. -/
theorem simulated_book_eq_unswitched (profile : BrokerProfile) (schedule : StrategySchedule)
    (events : List BookEvent) (simulated : ∀ event ∈ events, event.isSimulated = true)
    (unrefused : ∀ missing,
      .awaitingFills missing ∉ Book.new.errorsAlong profile schedule events)
    (recorded : ∀ v ∈ Book.new.visitsAlong profile schedule events, v.follows = true →
      v.recorded = true)
    (funded : ∀ v ∈ Book.new.visitsAlong profile schedule events, v.follows = true →
      v.funded = true)
    (regular : ∀ v ∈ Book.new.visitsAlong profile schedule events, v.follows = true →
      v.regular = true) :
    SameBook (Book.after profile schedule events)
      (Book.after profile schedule (events.filter BookEvent.isRun)) :=
  (after_twin new_twin simulated unrefused fun v member =>
    ⟨recorded v member, funded v member, regular v member⟩).same

/-- A book switched before its first decision, whose first session is recorded as
simulated. -/
def simulatedEvents (symbol : Symbol) : List BookEvent :=
  [.append .enable, .run (smallRun smallData [buyLot symbol 20240102] 20240102),
    .append (.session "fill_1" 20240102 .simulated),
    .run (smallRun smallData [buyLot symbol 20240102] 20240103)]

/-- A buy recorded as simulated is the buy of the book that never switched. -/
theorem simulated_buy_eq_unswitched :
    (Book.after {} smallSchedule (simulatedEvents "600000.SH")).state.settledThrough =
        some 20240102 ∧
      SameBook (Book.after {} smallSchedule (simulatedEvents "600000.SH"))
        (Book.after {} smallSchedule ((simulatedEvents "600000.SH").filter BookEvent.isRun)) := by
  have noError : Book.new.errorsAlong {} smallSchedule (simulatedEvents "600000.SH") = [] := by
    decide +kernel
  refine ⟨by decide +kernel, simulated_book_eq_unswitched {} smallSchedule _ (by decide +kernel)
    (fun missing member => ?_) (by decide +kernel) (by decide +kernel) (by decide +kernel)⟩
  rw [noError] at member
  exact List.not_mem_nil member

/-- The simulator refuses an order whose symbol has a space and goes on; the
switched book cannot parse the order's key and stops. -/
theorem simulated_book_ne_unswitched : ¬ ∀ (profile : BrokerProfile) (schedule : StrategySchedule)
    (events : List BookEvent), (∀ event ∈ events, event.isSimulated = true) →
    (∀ missing, .awaitingFills missing ∉ Book.new.errorsAlong profile schedule events) →
    (∀ v ∈ Book.new.visitsAlong profile schedule events, v.follows = true → v.recorded = true) →
    (∀ v ∈ Book.new.visitsAlong profile schedule events, v.follows = true → v.funded = true) →
    SameBook (Book.after profile schedule events)
      (Book.after profile schedule (events.filter BookEvent.isRun)) := by
  intro claim
  have stops : Book.new.errorsAlong {} smallSchedule (simulatedEvents "600000 SH") =
      [.cannotSettle 20240102 (.keyDoesNotParse ⟨570, .buy, "600000 SH"⟩)] := by
    decide +kernel
  have same := claim {} smallSchedule (simulatedEvents "600000 SH") (by decide +kernel)
    (fun missing member => by
      rw [stops] at member
      exact absurd (List.mem_singleton.mp member) (by simp))
    (by decide +kernel) (by decide +kernel)
  have settled := congrArg PaperState.settledThrough same.state_eq
  revert settled
  decide +kernel

end AutoTrade
