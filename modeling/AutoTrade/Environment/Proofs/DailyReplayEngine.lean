import AutoTrade.Environment.Proofs.Broker
import AutoTrade.Environment.Replay.DailyReplayEngine

/-!
# Every order of a replay runs once

The trace of a replay is a run of its inbox as an agenda: a submitted order is executed
at the first pass to reach it, and the orders come up by execution time, an earlier
submission first.
-/

namespace AutoTrade

namespace DailyReplay

open Agenda (Event)

theorem fromRecord_executeAt {record : OrderRecord} {inferenceAt : Instant} {order : StrategyOrder}
    (accepted : StrategyOrder.fromRecord record inferenceAt = .ok order) :
    inferenceAt ≤ order.executeAt := by
  obtain ⟨-, notBefore, limitPrice, positive, rfl⟩ := fromRecord_made accepted
  exact notBefore

theorem validateOrderPayload_executeAt {payload : List OrderRecord} {inferenceAt : Instant}
    {orders : List StrategyOrder} (accepted : validateOrderPayload payload inferenceAt = .ok orders) :
    ∀ order ∈ orders, inferenceAt ≤ order.executeAt := by
  have each := mapM_eq_ok.mp accepted
  induction each with
  | nil => simp
  | cons here _ ih =>
    intro order member
    rcases List.mem_cons.mp member with rfl | later
    · exact fromRecord_executeAt here
    · exact ih (mapM_eq_ok.mpr ‹_›) order later

/-- What an execution says of its order. -/
structure ExecutionOf (order : StrategyOrder) (e : Execution) : Prop where
  symbol_eq : e.symbol = order.symbol
  action_eq : e.action = order.action
  quantity_eq : e.quantity = order.quantity
  executeAt_eq : e.executeAt = order.executeAt
  matchedAt_eq : e.matchedAt = order.executeAt
  metadata_eq : e.metadata = order.metadata
  session_eq : e.session = order.session
  limitPrice_eq : e.limitPrice = order.limitPrice

variable {Row : Type} {engine : DailyReplayEngine Row} {market : ReplayMarket Row}

variable {account account' : DailyBroker × List Execution}

theorem executeOrder_spec {order : StrategyOrder}
    (run : engine.executeOrder market account order = .ok account') :
    ∃ e, account'.2 = account.2 ++ [e] ∧ ExecutionOf order e := by
  simp only [DailyReplayEngine.executeOrder] at run
  split at run
  · cases run
  · rename_i broker e executed
    cases run
    have frame := DailyBroker.execute_frame executed
    exact ⟨e, rfl, frame.symbol_eq, frame.action_eq, frame.quantity_eq, frame.executeAt_eq,
      frame.matchedAt_eq, frame.metadata_eq, frame.session_eq, frame.limitPrice_eq⟩

theorem executeOrders_spec {due : List StrategyOrder}
    (run : due.foldlM (engine.executeOrder market) account = .ok account') :
    ∃ answers, account'.2 = account.2 ++ answers ∧ List.Forall₂ ExecutionOf due answers := by
  induction due generalizing account with
  | nil =>
    obtain rfl := (foldlM_nil _ _ _).mp run
    exact ⟨[], (List.append_nil _).symm, .nil⟩
  | cons order due ih =>
    obtain ⟨between, here, later⟩ := foldlM_cons_eq_ok.mp run
    obtain ⟨e, first, answer⟩ := executeOrder_spec here
    obtain ⟨answers, rest, answered⟩ := ih later
    exact ⟨e :: answers, by rw [rest, first, List.append_assoc]; rfl, .cons answer answered⟩

/-- What the trace and the inbox of a run are once it has passed over `cutoffs`. -/
structure Traced (cutoffs : List Instant) (state : ReplayState Row) : Prop where
  ran : Agenda.Ran StrategyOrder.executeAt state.trace state.inbox.orders
  passed : state.trace.filterMap Event.cutoff = cutoffs
  timely : Agenda.Ran.Timely StrategyOrder.executeAt state.trace
  answered : List.Forall₂ ExecutionOf (state.trace.flatMap Event.taken) state.executions

namespace Traced

variable {cutoffs : List Instant} {state state' : ReplayState Row}

theorem start (broker : DailyBroker) : Traced [] ({ broker } : ReplayState Row) :=
  ⟨.start, rfl, .nil, .nil⟩

theorem of_same (traced : Traced cutoffs state) (trace : state'.trace = state.trace)
    (inbox : state'.inbox = state.inbox) (executions : state'.executions = state.executions) :
    Traced cutoffs state' := by
  refine ⟨?_, ?_, ?_, ?_⟩
  · rw [trace, inbox]
    exact traced.ran
  · rw [trace]
    exact traced.passed
  · rw [trace]
    exact traced.timely
  · rw [trace, executions]
    exact traced.answered

theorem openDay {tradeDate : Nat} (traced : Traced cutoffs state)
    (run : DailyReplayEngine.openDay market state tradeDate = .ok state') :
    Traced cutoffs state' := by
  simp only [DailyReplayEngine.openDay] at run
  split at run
  · cases run
  · cases run
    exact traced.of_same rfl rfl rfl

theorem closeDay (traced : Traced cutoffs state) (tradeDate : Nat) :
    Traced cutoffs (engine.closeDay market state tradeDate) :=
  traced.of_same rfl rfl rfl

theorem matchDue {cutoff : Instant} (traced : Traced cutoffs state)
    (run : engine.matchDue market state cutoff = .ok state') :
    Traced (cutoffs ++ [cutoff]) state' := by
  obtain ⟨account, executed, rest⟩ := bind_eq_ok.mp run
  obtain rfl := pure_eq_ok.mp rest
  obtain ⟨answers, grown, answered⟩ := executeOrders_spec executed
  refine ⟨traced.ran.pass cutoff, ?_, ?_, ?_⟩
  · simp [List.filterMap_append, traced.passed, Event.cutoff]
  · refine List.pairwise_append.mpr ⟨traced.timely, List.pairwise_singleton _ _, ?_⟩
    intro event _ later last passed _ x added
    rw [List.mem_singleton.mp last] at added
    cases added
  · simp only [List.flatMap_append, List.flatMap_singleton, Event.taken, grown]
    exact List.rel_append traced.answered answered

variable {context : StrategyContext Row}

theorem submitOrders (traced : Traced cutoffs state)
    (past : ∀ cutoff ∈ cutoffs, cutoff ≤ context.inferenceAt)
    (run : engine.submitOrders state context = .ok state') : Traced cutoffs state' := by
  simp only [DailyReplayEngine.submitOrders] at run
  split at run
  · cases run
  · split at run
    · cases run
    · rename_i payload _ orders accepted
      cases run
      have after := validateOrderPayload_executeAt accepted
      refine ⟨traced.ran.add orders, ?_, ?_, ?_⟩
      · simp [List.filterMap_append, traced.passed, Event.cutoff]
      · refine List.pairwise_append.mpr ⟨traced.timely, List.pairwise_singleton _ _, ?_⟩
        intro event inTrace later last cutoff passed x added
        rw [List.mem_singleton.mp last] at added
        have before : cutoff ∈ cutoffs := by
          rw [← traced.passed]
          exact List.mem_filterMap.mpr ⟨event, inTrace, passed⟩
        exact (past cutoff before).trans (after x added)
      · simpa [List.flatMap_append, Event.taken] using traced.answered

variable {tradeDate : Nat}

theorem fitDue (traced : Traced cutoffs state)
    (run : engine.fitDue state tradeDate context = .ok state') : Traced cutoffs state' := by
  simp only [DailyReplayEngine.fitDue] at run
  split at run
  · cases run
    exact traced
  · split at run
    · split at run
      · cases run
        exact traced.of_same rfl rfl rfl
      · cases run
    · cases run
      exact traced

theorem infer {inferenceAt : Instant} (traced : Traced cutoffs state)
    (past : ∀ cutoff ∈ cutoffs, cutoff ≤ inferenceAt)
    (run : engine.infer market state tradeDate inferenceAt = .ok state') :
    Traced cutoffs state' := by
  obtain ⟨context, built, run⟩ := bind_eq_ok.mp run
  obtain ⟨fitted, fits, run⟩ := bind_eq_ok.mp run
  obtain ⟨submitted, submits, run⟩ := bind_eq_ok.mp run
  obtain rfl := pure_eq_ok.mp run
  obtain ⟨account, -, rfl⟩ := map_eq_ok.mp built
  exact ((traced.fitDue fits).submitOrders past submits).of_same rfl rfl rfl

theorem inferIfDue (traced : Traced cutoffs state)
    (past : ∀ cutoff ∈ cutoffs, cutoff ≤ engine.schedule.at tradeDate)
    (run : engine.inferIfDue market state tradeDate = .ok state') : Traced cutoffs state' := by
  simp only [DailyReplayEngine.inferIfDue] at run
  split at run
  · exact traced.infer past run
  · cases run
    exact traced

end Traced

/-- The cutoffs of the passes of some days. -/
def cutoffsOf (schedule : StrategySchedule) (days : List Nat) : List Instant :=
  days.flatMap fun day => [schedule.at day, Instant.dayEnd day]

theorem cutoffsOf_le {schedule : StrategySchedule} {done : List Nat} {day : Nat}
    (earlier : ∀ other ∈ done, other < day) :
    ∀ cutoff ∈ cutoffsOf schedule done ++ [schedule.at day], cutoff ≤ schedule.at day := by
  intro cutoff member
  rcases List.mem_append.mp member with past | now
  · obtain ⟨other, inDone, its⟩ := List.mem_flatMap.mp past
    have before := earlier other inDone
    rcases List.mem_cons.mp its with rfl | its
    · exact Instant.le_def.mpr (.inl before)
    · obtain rfl := List.mem_singleton.mp its
      exact Instant.le_def.mpr (.inl before)
  · exact (List.mem_singleton.mp now).le

theorem tradeDay_traced {done : List Nat} {day : Nat} {state state' : ReplayState Row}
    (earlier : ∀ other ∈ done, other < day) (traced : Traced (cutoffsOf engine.schedule done) state)
    (run : engine.tradeDay market state day = .ok state') :
    Traced (cutoffsOf engine.schedule (done ++ [day])) state' := by
  obtain ⟨opened, opens, run⟩ := bind_eq_ok.mp run
  obtain ⟨settled, settles, run⟩ := bind_eq_ok.mp run
  obtain ⟨decided, decides, run⟩ := bind_eq_ok.mp run
  obtain ⟨matched, matches', run⟩ := bind_eq_ok.mp run
  obtain rfl := pure_eq_ok.mp run
  have morning := (traced.openDay opens).matchDue settles
  have evening := (morning.inferIfDue (cutoffsOf_le earlier) decides).matchDue matches'
  have passes : cutoffsOf engine.schedule (done ++ [day]) =
      cutoffsOf engine.schedule done ++ [engine.schedule.at day] ++ [Instant.dayEnd day] := by
    simp [cutoffsOf]
  rw [passes]
  exact evening.closeDay day

theorem runDays_traced {days : List Nat} (ascending : days.Pairwise (· < ·))
    {state : ReplayState Row} (run : engine.runDays market days = .ok state) :
    Traced (cutoffsOf engine.schedule days) state := by
  refine foldlM_along (P := fun done state => Traced (cutoffsOf engine.schedule done) state)
    ?_ run (.start _)
  intro done day rest before after split step traced
  rw [split] at ascending
  have earlier := (List.pairwise_append.mp ascending).2.2
  exact tradeDay_traced (fun other member => earlier other member day List.mem_cons_self) traced step

/-- Every order a replay was given runs once or waits. At every day of every run the passes
were those of the schedule and the day ends, each executed the submitted orders assigned
to it (it was the first to reach them since they were submitted), the inbox holds those no
pass reached, and both come up by execution time and then by submission; each execution
answers its own order. -/
theorem orders_run_once (engine : DailyReplayEngine Row) (market : ReplayMarket Row)
    {days : List Nat} (begun : days <+: market.tradeDates) {state : ReplayState Row}
    (run : engine.runDays market days = .ok state) :
    (state.trace.filterMap Event.cutoff =
        days.flatMap fun day => [engine.schedule.at day, Instant.dayEnd day]) ∧
      (∀ place cutoff executed, state.trace[place]? = some (.pass cutoff executed) →
        executed = Agenda.byTime StrategyOrder.executeAt
          (Agenda.assignedTo StrategyOrder.executeAt (some place) state.trace)) ∧
      state.inbox.orders = Agenda.byTime StrategyOrder.executeAt
        (Agenda.assignedTo StrategyOrder.executeAt none state.trace) ∧
      (Agenda.assigned StrategyOrder.executeAt state.trace).map Prod.fst =
        state.trace.flatMap Event.added ∧
      state.trace.flatMap Event.taken ++ state.inbox.orders =
        Agenda.byTime StrategyOrder.executeAt (state.trace.flatMap Event.added) ∧
      List.Forall₂ ExecutionOf (state.trace.flatMap Event.taken) state.executions ∧
      (days = market.tradeDates →
        ∃ result, engine.run market = .ok result ∧ result.executions = state.executions ∧
          result.pendingOrders = state.inbox.records) := by
  have traced := runDays_traced (market.sorted.sublist begun.sublist) run
  refine ⟨traced.passed, fun place cutoff executed here => traced.ran.taken_eq here,
    traced.ran.items_eq, Agenda.map_fst_assigned _, traced.ran.in_order traced.timely, traced.answered, ?_⟩
  rintro rfl
  refine ⟨DailyReplayEngine.result state, ?_, rfl, rfl⟩
  rw [DailyReplayEngine.run, run]
  rfl

/-! Two mornings and a strategy that asks for one order on each. -/

def twoMornings : ReplayMarket Unit where
  tradeDates := [20240102, 20240103]
  bars := fun day _ =>
    if day ∈ [20240102, 20240103] then
      some { opening := some 10, close := some 10, preClose := some 10, upLimit := some 11,
             downLimit := some 9 }
    else none
  distributions := fun _ _ => {}
  sorted := by decide
  bars_eq_none := fun _ absent _ => if_neg absent
  visibleAt := fun _ => []

def dailyBuyer : DailyReplayEngine Unit where
  schedule := ⟨.day, 8 * 60, by decide⟩
  strategy :=
    { fitSchedule := some ⟨none⟩
      fit := fun _ => true
      generateOrders := fun requests => some (requests.head?.toList.filterMap fun
        | .fit _ => none
        | .generateOrders context => some
          { symbol := "600000.SH", action := .buy, quantity := 100,
            executeAt := Instant.atMinute context.inferenceAt.day 570 Instant.open_lt,
            metadata := [], session := none, limitPrice := none }) }
  profile := .usual
  contextData := none
  executionPrice := fun _ _ => none

theorem dailyBuyer_once : ∃ state, dailyBuyer.runDays twoMornings twoMornings.tradeDates = .ok state ∧
    state.inbox.orders = Agenda.byTime StrategyOrder.executeAt
      (Agenda.assignedTo StrategyOrder.executeAt none state.trace) := by
  have runs : (dailyBuyer.runDays twoMornings twoMornings.tradeDates).toOption.isSome := by
    decide +kernel
  obtain ⟨state, reached⟩ := Option.isSome_iff_exists.mp runs
  have run := toOption_eq_some.mp reached
  exact ⟨state, run, (orders_run_once dailyBuyer twoMornings (List.prefix_refl _) run).2.2.1⟩

end DailyReplay

end AutoTrade
