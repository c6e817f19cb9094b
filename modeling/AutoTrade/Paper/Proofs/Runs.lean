import AutoTrade.Paper.Visits

/-!
# Rules for runs

One inversion lemma for each step of a run, and the rule that carries a
property of a run in progress through all its sessions: every settled session
and the decision keep it. The rule tells each session's step what the visit to
it satisfies, and that its day comes after every day settled before.
-/

namespace AutoTrade

open DailyBroker

variable {data : PaperData} {records : Records} {day : Nat} {fills : DayFills} {b : DailyBroker}
  {due : List StrategyOrder}

theorem fillRecorded_eq_ok {late : List Nat} {journal : List Emission} {mode : Mode}
    (h : fillRecorded records late journal data b mode day due = .ok fills) :
    ∃ simulator simulated settled, executeAll data b due = .ok (simulator, simulated) ∧
      settleRecorded records late (corporateHistory journal) b mode day simulated = .ok settled ∧
      fills =
        { broker := settled.broker
          realFills := some settled.mode
          emissions := simulated.map (fun x => .simulatedExecution day x.2) ++
            settled.corrections.map .correction ++ settled.rows.map (.execution day)
          simulatedEquity := some (simulator.mark (data.market.bars day)).equity } := by
  unfold fillRecorded at h
  split at h
  · cases h
  rename_i simulator simulated executed
  split at h
  · cases h
  rename_i settled settles
  exact ⟨simulator, simulated, settled, executed, settles, (Except.ok.inj h).symm⟩

theorem settleSession_eq_ok {live settled : Live}
    (h : settleSession records data live day = .ok settled) :
    ∃ opened fills, live.broker.openDay day (data.market.bars day) (data.market.distributions day) =
        .ok opened ∧
      fillDay records data live opened day = .ok fills ∧
      settled = closeDay data live opened fills day := by
  unfold settleSession at h
  split at h
  · cases h
  rename_i opened opens
  split at h
  · cases h
  rename_i fills filled
  exact ⟨opened, fills, opens, filled, (Except.ok.inj h).symm⟩

theorem decideSession_eq_ok {schedule : StrategySchedule} {input : RunInput} {live decided : Live}
    (h : decideSession schedule input live = .ok decided) :
    ∃ orders, ask input (schedule.at input.tradeDate) live.broker.accountSnapshot = .ok orders ∧
      decided = (recordDecision live input (schedule.at input.tradeDate)
        orders).checkpoint.reconcile := by
  unfold decideSession at h
  split at h
  · cases h
  dsimp only at h
  split at h
  · cases h
  rename_i orders answered
  exact ⟨orders, answered, (Except.ok.inj h).symm⟩

variable {profile : BrokerProfile}

theorem restoreBroker_eq_ok {account : Option AccountRecord}
    (h : restoreBroker profile account = .ok b) :
    b.cash = (account.getD (accountRecord (DailyBroker.new profile))).cash ∧
      b.positions = (account.getD (accountRecord (DailyBroker.new profile))).positions := by
  cases account with
  | none =>
    obtain rfl := Except.ok.inj h
    exact ⟨rfl, rfl⟩
  | some account =>
    unfold restoreBroker at h
    dsimp only at h
    split at h
    · cases h
    rename_i restored restores
    obtain rfl := Except.ok.inj h
    unfold restoreLots at restores
    dsimp only at restores
    split_ifs at restores
    obtain rfl := Except.ok.inj restores
    exact ⟨rfl, rfl⟩

theorem adopt_account (state : PaperState) (records : Records) :
    (adopt state records).account = state.account ∧
      (adopt state records).emissions = state.emissions := by
  unfold adopt
  split_ifs <;> exact ⟨rfl, rfl⟩

variable {live : Live}

theorem restore_eq_ok {book : Book} (h : book.restore profile = .ok live) :
    ∃ broker pending, restoreBroker profile book.state.account = .ok broker ∧
      restoreOrders book.state.pendingOrders = .ok pending ∧ live = book.start broker pending := by
  unfold Book.restore at h
  obtain ⟨broker, restored, h⟩ := bind_eq_ok.mp h
  obtain ⟨pending, orders, h⟩ := bind_eq_ok.mp h
  exact ⟨broker, pending, restored, orders, (Except.ok.inj h).symm⟩

theorem settle_eq_ok {live settled : Live} (h : settle records data live day = .ok settled) :
    ∃ opened fills, live.broker.openDay day (data.market.bars day) (data.market.distributions day) =
        .ok opened ∧
      fillDay records data live opened day = .ok fills ∧
      settled = (closeDay data live opened fills day).checkpoint.reconcile := by
  obtain ⟨session, made, rfl⟩ := except_map_eq_ok.mp h
  obtain ⟨opened, fills, opens, filled, rfl⟩ := settleSession_eq_ok made
  exact ⟨opened, fills, opens, filled, rfl⟩

theorem fillDay_cases {opened : DailyBroker}
    (h : fillDay records data live opened day = .ok fills) :
    (∃ mode, live.state.realFills = some mode ∧ mode.covers day = true ∧
      fillRecorded records (postHocSessions live.state.decisions) live.journal data opened mode day
        (live.pending.filter fun order => order.executeAt ≤ Instant.dayEnd day) = .ok fills) ∨
    ((∀ mode ∈ live.state.realFills, mode.covers day = false) ∧
      fillSimulated data opened live.state.realFills day
        (live.pending.filter fun order => order.executeAt ≤ Instant.dayEnd day) = .ok fills) := by
  unfold fillDay at h
  dsimp only at h
  cases following : live.state.realFills with
  | none =>
    rw [following] at h
    exact .inr ⟨by simp, h⟩
  | some mode =>
    rw [following] at h
    dsimp only at h
    by_cases covered : mode.covers day = true
    · rw [if_pos covered] at h
      exact .inl ⟨mode, rfl, covered, h⟩
    · rw [if_neg covered] at h
      exact .inr ⟨by simpa using covered, h⟩

theorem fillSimulated_eq_ok {realFills : Option Mode}
    (h : fillSimulated data b realFills day due = .ok fills) :
    ∃ filled simulated, executeAll data b due = .ok (filled, simulated) ∧
      fills =
        { broker := filled, realFills
          emissions := simulated.map fun x => .execution day { execution := x.2 }
          simulatedEquity := none } := by
  unfold fillSimulated at h
  split at h
  · cases h
  rename_i filled simulated executed
  exact ⟨filled, simulated, executed, (Except.ok.inj h).symm⟩

theorem correctionsOf_append (l l' : List Emission) :
    correctionsOf (l ++ l') = correctionsOf l ++ correctionsOf l' := by
  simp [correctionsOf]

theorem correctionsOf_eq_nil {rows : List Emission}
    (h : ∀ row ∈ rows, ∀ c, row ≠ .correction c) : correctionsOf rows = [] := by
  refine List.filterMap_eq_nil_iff.mpr fun row member => ?_
  cases row with
  | correction c => exact absurd rfl (h _ member c)
  | _ => rfl

theorem correctionsOf_actions (day : Nat) (actions : List CorporateAction) :
    correctionsOf (actions.map (.corporateAction day)) = [] := by
  refine correctionsOf_eq_nil fun row member c => ?_
  obtain ⟨x, -, rfl⟩ := List.mem_map.mp member
  exact Emission.noConfusion

theorem closeDay_journal (data : PaperData) (opened : DailyBroker) (fills : DayFills) (day : Nat)
    (none : live.state.emissions = []) :
    ∃ row, (closeDay data live opened fills day).checkpoint.reconcile.journal =
      live.journal ++
        ((opened.corporateActions.drop live.broker.corporateActions.length).map
          (.corporateAction day) ++ fills.emissions ++ [.equity row]) := by
  simp only [closeDay, Live.queue, Live.checkpoint, Live.reconcile, none, List.nil_append]
  exact ⟨_, rfl⟩

theorem recordDecision_journal (input : RunInput) (inferenceAt : Instant)
    (orders : List StrategyOrder) (none : live.state.emissions = []) :
    (recordDecision live input inferenceAt orders).checkpoint.reconcile.journal =
      live.journal ++ orders.map fun order => .order input.tradeDate order.toRecord := by
  simp only [recordDecision, Live.queue, Live.checkpoint, Live.reconcile, none, List.nil_append]

/-- What a settled session of the visit `v` starts from and leaves. -/
structure Visit.Settles (v : Visit) (settled : Live) : Prop where
  opens : v.live.broker.openDay v.day (v.data.market.bars v.day)
    (v.data.market.distributions v.day) = .ok v.opened
  later : v.live.state.settledThrough.all (· < v.day) = true
  settles : settle v.records v.data v.live v.day = .ok settled

theorem settleAll_invariant {P : Live → Prop} {V : Visit → Prop} (records : Records)
    (data : PaperData)
    (step : ∀ v : Visit, ∀ settled, v.records = records → v.data = data → V v → v.Settles settled →
      P v.live → P settled) (days : List Nat) (ascending : days.Pairwise (· < ·))
    (later : ∀ day ∈ days, live.state.settledThrough.all (· < day) = true)
    (visits : ∀ v ∈ settleVisits records data live days, V v) (start : P live) :
    P (settleAll records data live days).1 := by
  induction days generalizing live with
  | nil => exact start
  | cons day days ih =>
    obtain ⟨after, ascending⟩ := List.pairwise_cons.mp ascending
    unfold settleAll
    split
    · exact start
    · rename_i settled settles
      obtain ⟨opened, fills, opens, filled, left⟩ := settle_eq_ok settles
      simp only [settleVisits, opens, settles, List.forall_mem_cons] at visits
      refine ih ascending ?_ visits.2 (step ⟨records, data, live, opened, day⟩ settled rfl rfl
        visits.1 ⟨opens, later day List.mem_cons_self, settles⟩ start)
      intro day' member
      rw [left]
      simp [closeDay, Live.queue, Live.checkpoint, Live.reconcile, after day' member]

theorem toSettle_ascending (state : PaperState) {sessions : List Nat} (tradeDate : Nat)
    (sorted : sessions.Pairwise (· < ·)) :
    (toSettle state sessions tradeDate).Pairwise (· < ·) := sorted.sublist List.filter_sublist

theorem mem_toSettle {state : PaperState} {sessions : List Nat} {tradeDate day : Nat}
    (member : day ∈ toSettle state sessions tradeDate) :
    day < tradeDate ∧ state.settledThrough.all (· < day) = true := by
  have here := of_decide_eq_true (List.mem_filter.mp member).2
  exact ⟨here.2.1, here.2.2⟩

theorem settleVisits_day {Q : Nat → Prop} {days : List Nat} (holds : ∀ day ∈ days, Q day) :
    ∀ v ∈ settleVisits records data live days, Q v.day := by
  induction days generalizing live with
  | nil => simp [settleVisits]
  | cons day days ih =>
    intro v member
    unfold settleVisits at member
    split at member
    · cases member
    rcases List.mem_cons.mp member with rfl | member
    · exact holds day List.mem_cons_self
    · split at member
      · cases member
      · exact ih (fun day' inDays => holds day' (List.mem_cons_of_mem _ inDays)) v member

theorem runFrom_invariant {P : Live → Prop} {V : Visit → Prop} (schedule : StrategySchedule)
    (records : Records) (input : RunInput)
    (settles : ∀ v : Visit, ∀ settled, v.records = records → V v → v.day < input.tradeDate →
      v.Settles settled → P v.live → P settled)
    (decides : ∀ live decided, decideSession schedule input live = .ok decided → P live → P decided)
    (visits : ∀ v ∈ runVisits schedule records input live, V v) (start : P live) :
    P (runFrom schedule records input live).1 := by
  unfold runFrom
  unfold runVisits at visits
  by_cases decided : (live.state.decisions.map Decision.tradeDate).getLast? = some input.tradeDate
  · rw [if_pos decided]
    exact start
  rw [if_neg decided] at visits ⊢
  split
  · exact start
  · exact start
  rename_i data checked given
  rw [checked, given] at visits
  dsimp only at visits
  unfold advance
  split
  · exact start
  rename_i checked'
  rw [checked'] at visits
  dsimp only at visits
  have settled := settleAll_invariant (V := fun v => V v ∧ v.day < input.tradeDate) records data
    (fun v settled same _ holds settling before =>
      settles v settled same holds.1 holds.2 settling before)
    (toSettle live.state data.sessions input.tradeDate)
    (toSettle_ascending live.state input.tradeDate data.sorted)
    (fun day member => (mem_toSettle member).2)
    (fun v member => ⟨visits v member,
      settleVisits_day (fun day inDays => (mem_toSettle inDays).1) v member⟩) start
  split
  · rename_i left _ settling
    rw [settling] at settled
    exact settled
  · rename_i left settling
    rw [settling] at settled
    unfold decideIfDue
    split_ifs
    · split
      · exact settled
      · rename_i made deciding
        exact decides _ _ deciding settled
    · exact settled
    · exact settled

end AutoTrade
