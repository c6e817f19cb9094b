import AutoTrade.Paper.Proofs.Runs

/-!
# Running a book again

The equity curve of a book has one row for each session its runs settled, in order, and its
journals only grow. A run that came to its end has settled what there was to settle, and a
second run of the same day changes nothing in the book.
-/

namespace AutoTrade

variable {data : PaperData} {records : Records} {schedule : StrategySchedule} {input : RunInput}
  {live settled left : Live} {day : Nat} {book : Book}

/-- The sessions of the equity curve. -/
def curveDays (journal : List Emission) : List Nat := (equityOf journal).map Prod.fst

theorem curveDays_append (l l' : List Emission) : curveDays (l ++ l') = curveDays l ++ curveDays l' := by
  simp [curveDays, equityOf]

theorem curveDays_eq_nil {rows : List Emission} (h : ∀ row ∈ rows, ∀ e, row ≠ .equity e) :
    curveDays rows = [] := by
  refine List.map_eq_nil_iff.mpr (List.filterMap_eq_nil_iff.mpr fun row member => ?_)
  cases row with
  | equity e => exact absurd rfl (h _ member e)
  | _ => rfl

/-- What `_settle` leaves of the state and the journals. -/
structure Live.Settles (live settled : Live) (day : Nat) : Prop where
  startDate : settled.state.startDate = live.state.startDate
  decisions : settled.state.decisions = live.state.decisions
  settledThrough : settled.state.settledThrough = some day
  emissions : settled.state.emissions = []
  follows : live.state.realFills.isSome = true → settled.state.realFills.isSome = true
  journal : ∃ rows, settled.journal = live.journal ++ live.state.emissions ++ rows ∧
    curveDays rows = [day]

theorem fillDay_rows {opened : DailyBroker} {fills : DayFills}
    (h : fillDay records data live opened day = .ok fills) :
    curveDays fills.emissions = [] ∧
      (live.state.realFills.isSome = true → fills.realFills.isSome = true) := by
  rcases fillDay_cases h with ⟨mode, -, -, recorded⟩ | ⟨-, simulated⟩
  · obtain ⟨_, simulated, settled, -, -, rfl⟩ := fillRecorded_eq_ok recorded
    refine ⟨curveDays_eq_nil fun row member e => ?_, fun _ => rfl⟩
    simp only [List.mem_append, List.mem_map] at member
    rcases member with (⟨_, _, rfl⟩ | ⟨_, _, rfl⟩) | ⟨_, _, rfl⟩ <;> exact Emission.noConfusion
  · obtain ⟨_, simulated, -, rfl⟩ := fillSimulated_eq_ok simulated
    refine ⟨curveDays_eq_nil fun row member e => ?_, id⟩
    obtain ⟨_, _, rfl⟩ := List.mem_map.mp member
    exact Emission.noConfusion

theorem settle_settles (h : settle records data live day = .ok settled) : live.Settles settled day := by
  obtain ⟨opened, fills, -, filled, rfl⟩ := settle_eq_ok h
  obtain ⟨fillRows, follows⟩ := fillDay_rows filled
  refine ⟨rfl, rfl, rfl, rfl, follows, _, (List.append_assoc _ _ _).symm, ?_⟩
  have actions : ∀ taken : List CorporateAction, curveDays (taken.map (.corporateAction day)) = [] := by
    intro taken
    refine curveDays_eq_nil fun row member e => ?_
    obtain ⟨_, _, rfl⟩ := List.mem_map.mp member
    exact Emission.noConfusion
  rw [curveDays_append, curveDays_append, actions, fillRows]
  rfl

/-- Nothing is queued, and the curve has its sessions in order, the last one settled last. -/
structure Live.InOrder (live : Live) : Prop where
  emissions : live.state.emissions = []
  sessions : (curveDays live.journal).Pairwise (· < ·)
  through : live.state.settledThrough = (curveDays live.journal).getLast?

theorem le_getLast?_of_pairwise {days : List Nat} (ascending : days.Pairwise (· < ·)) {last : Nat}
    (final : days.getLast? = some last) : ∀ day ∈ days, day ≤ last := by
  obtain ⟨before, rfl⟩ := List.getLast?_eq_some_iff.mp final
  intro day member
  rcases List.mem_append.mp member with earlier | here
  · exact ((List.pairwise_append.mp ascending).2.2 day earlier last (by simp)).le
  · exact (List.mem_singleton.mp here).le

theorem Live.InOrder.settle (order : live.InOrder) (settles : live.Settles settled day)
    (later : live.state.settledThrough.all (· < day) = true) : settled.InOrder := by
  obtain ⟨rows, journal, curve⟩ := settles.journal
  rw [order.emissions, List.append_nil] at journal
  have after : ∀ session ∈ curveDays live.journal, session < day := by
    intro session member
    cases final : (curveDays live.journal).getLast? with
    | none => rw [List.getLast?_eq_none_iff.mp final] at member; cases member
    | some last =>
      rw [order.through, final] at later
      exact (le_getLast?_of_pairwise order.sessions final session member).trans_lt (of_decide_eq_true later)
  refine ⟨settles.emissions, ?_, ?_⟩
  · rw [journal, curveDays_append, curve, List.pairwise_append]
    refine ⟨order.sessions, List.pairwise_singleton _ _, fun session member other here => ?_⟩
    exact List.mem_singleton.mp here ▸ after session member
  · rw [journal, curveDays_append, curve, List.getLast?_concat, settles.settledThrough]

theorem decide_curve {decided : Live} (h : decideSession schedule input live = .ok decided)
    (none : live.state.emissions = []) : ∃ rows, decided.journal = live.journal ++ rows ∧
      curveDays rows = [] ∧ decided.state.emissions = [] ∧
      decided.state.settledThrough = live.state.settledThrough ∧
      decided.state.realFills = live.state.realFills := by
  obtain ⟨orders, -, rfl⟩ := decideSession_eq_ok h
  refine ⟨_, recordDecision_journal input _ orders none, curveDays_eq_nil fun row member e => ?_, rfl, rfl, rfl⟩
  obtain ⟨_, _, rfl⟩ := List.mem_map.mp member
  exact Emission.noConfusion

theorem runFrom_inOrder {before : List Emission} (order : live.InOrder) (grows : before <+: live.journal) :
    (runFrom schedule records input live).1.InOrder ∧
      before <+: (runFrom schedule records input live).1.journal := by
  refine runFrom_invariant (P := fun live => live.InOrder ∧ before <+: live.journal)
    (V := fun _ => True) schedule records input ?_ ?_ (fun _ _ => trivial) ⟨order, grows⟩
  · rintro v settled - - - settling ⟨order, grows⟩
    have settles := settle_settles settling.settles
    obtain ⟨rows, journal, -⟩ := settles.journal
    refine ⟨order.settle settles settling.later, ?_⟩
    rw [journal, List.append_assoc]
    exact grows.trans (List.prefix_append _ _)
  · rintro live decided decides ⟨order, grows⟩
    obtain ⟨rows, journal, curve, emissions, through, -⟩ := decide_curve decides order.emissions
    have same : curveDays decided.journal = curveDays live.journal := by
      rw [journal, curveDays_append, curve, List.append_nil]
    refine ⟨⟨emissions, same ▸ order.sessions, ?_⟩, journal ▸ grows.trans (List.prefix_append _ _)⟩
    rw [through, order.through, same]

/-- The book on disk is in order. -/
structure Book.InOrder (book : Book) : Prop where
  emissions : book.state.emissions = []
  sessions : (curveDays book.journal).Pairwise (· < ·)
  through : book.state.settledThrough = (curveDays book.journal).getLast?

theorem adopt_through (state : PaperState) (records : Records) :
    (adopt state records).settledThrough = state.settledThrough := by
  unfold adopt
  split_ifs <;> rfl

theorem step_inOrder {profile : BrokerProfile} (order : book.InOrder) (event : BookEvent) :
    (book.step profile schedule event).InOrder ∧
      book.journal <+: (book.step profile schedule event).journal := by
  cases event with
  | append line => exact ⟨⟨order.emissions, order.sessions, order.through⟩, List.prefix_rfl⟩
  | run input =>
    unfold Book.step runDay
    dsimp only
    cases restored : book.restore profile with
    | error e => exact ⟨order, List.prefix_rfl⟩
    | ok live =>
      obtain ⟨broker, pending, -, -, rfl⟩ := restore_eq_ok restored
      have journal : (book.start broker pending).journal = book.journal :=
        (congrArg (book.journal ++ ·) order.emissions).trans (List.append_nil _)
      have start : (book.start broker pending).InOrder := by
        refine ⟨(adopt_account _ _).2, journal ▸ order.sessions, ?_⟩
        rw [journal, ← order.through]
        exact adopt_through _ _
      obtain ⟨after, grows⟩ : _ ∧ book.journal <+: (runFrom schedule (readRecords book.lines) input
        (book.start broker pending)).1.journal := runFrom_inOrder start (by rw [journal])
      exact ⟨⟨after.emissions, after.sessions, after.through⟩, grows⟩

/-- Over every sequence of runs and records, the equity curve of a book has each settled session
    once, in order, up to the one it is settled through, and what was journaled stays. -/
theorem sessions_settle_in_order (profile : BrokerProfile) (schedule : StrategySchedule)
    (events more : List BookEvent) :
    let book := Book.after profile schedule events
    book.InOrder ∧ book.journal <+: (Book.after profile schedule (events ++ more)).journal := by
  have run : ∀ (events : List BookEvent) (book : Book), book.InOrder →
      (events.foldl (Book.step profile schedule) book).InOrder ∧
        book.journal <+: (events.foldl (Book.step profile schedule) book).journal := by
    intro events
    induction events with
    | nil => exact fun book order => ⟨order, List.prefix_rfl⟩
    | cons event events ih =>
      intro book order
      obtain ⟨next, grows⟩ : (book.step profile schedule event).InOrder ∧ _ :=
        step_inOrder order event
      obtain ⟨after, grows'⟩ := ih _ next
      exact ⟨after, grows.trans grows'⟩
  have new : Book.new.InOrder := ⟨rfl, List.Pairwise.nil, rfl⟩
  have order := (run events _ new).1
  refine ⟨order, ?_⟩
  have grows := (run more _ order).2
  rwa [← List.foldl_append] at grows

theorem settleAll_done {days : List Nat}
    (h : settleAll records data live days = (left, none)) :
    left.state.startDate = live.state.startDate ∧
      left.state.settledThrough = (days.getLast?).or live.state.settledThrough := by
  induction days generalizing live with
  | nil =>
    obtain ⟨rfl, -⟩ := Prod.mk.inj h
    exact ⟨rfl, rfl⟩
  | cons day days ih =>
    unfold settleAll at h
    split at h
    · cases (Prod.mk.inj h).2
    · rename_i settled settling
      have settles := settle_settles settling
      obtain ⟨start, through⟩ := ih h
      refine ⟨start.trans settles.startDate, through.trans ?_⟩
      rw [settles.settledThrough, List.getLast?_cons]
      cases days.getLast? <;> rfl

theorem toSettle_settled {tradeDate : Nat}
    (h : settleAll records data live (toSettle live.state data.sessions tradeDate) = (left, none)) :
    toSettle left.state data.sessions tradeDate = [] := by
  obtain ⟨start, through⟩ := settleAll_done h
  have ascending := toSettle_ascending live.state tradeDate data.sorted
  refine List.filter_eq_nil_iff.mpr fun day session due => ?_
  have due := of_decide_eq_true due
  rw [start] at due
  cases final : (toSettle live.state data.sessions tradeDate).getLast? with
  | none =>
    rw [final, Option.none_or] at through
    have here : day ∈ toSettle live.state data.sessions tradeDate :=
      List.mem_filter.mpr ⟨session, decide_eq_true (through ▸ due)⟩
    rw [List.getLast?_eq_none_iff.mp final] at here
    cases here
  | some last =>
    rw [final, Option.some_or] at through
    have after := due.2.2
    rw [through] at after
    have later : last < day := of_decide_eq_true after
    have before := (mem_toSettle (List.mem_of_getLast? final)).2
    have here : day ∈ toSettle live.state data.sessions tradeDate := by
      refine List.mem_filter.mpr ⟨session, decide_eq_true ⟨due.1, due.2.1, ?_⟩⟩
      cases settled : live.state.settledThrough with
      | none => rfl
      | some first =>
        rw [settled] at before
        exact decide_eq_true ((of_decide_eq_true before : first < last).trans later)
    exact absurd (le_getLast?_of_pairwise ascending final day here) (not_le.mpr later)

/-- Nothing is left for a run to do: the day is decided, or every session before it is settled
    and no decision of it is due. -/
def Live.Done (schedule : StrategySchedule) (input : RunInput) (live : Live) : Prop :=
  (live.state.decisions.map Decision.tradeDate).getLast? = some input.tradeDate ∨
    ∀ data ∈ input.data, toSettle live.state data.sessions input.tradeDate = [] ∧
      ¬ (input.afterSettlement (evidence live.journal live.state.realFills) = true ∧
        decisionDue schedule live.state data input.tradeDate = true)

theorem runFrom_done (h : runFrom schedule records input live = (left, none)) :
    left.Done schedule input := by
  unfold runFrom at h
  split_ifs at h with decided
  · obtain ⟨rfl, -⟩ := Prod.mk.inj h
    exact .inl decided
  split at h
  · cases (Prod.mk.inj h).2
  · cases (Prod.mk.inj h).2
  rename_i data checked given
  unfold advance at h
  split at h
  · cases (Prod.mk.inj h).2
  split at h
  · cases (Prod.mk.inj h).2
  rename_i settled settling
  unfold decideIfDue at h
  split_ifs at h with due allowed
  · split at h
    · cases (Prod.mk.inj h).2
    · rename_i made deciding
      obtain ⟨rfl, -⟩ := Prod.mk.inj h
      obtain ⟨orders, -, rfl⟩ := decideSession_eq_ok deciding
      exact .inl (by simp [recordDecision, Live.queue, Live.checkpoint, Live.reconcile])
  · cases (Prod.mk.inj h).2
  · obtain ⟨rfl, -⟩ := Prod.mk.inj h
    refine .inr fun data' here => ?_
    obtain rfl : data = data' := Option.some.inj (given.symm.trans here)
    exact ⟨toSettle_settled settling, due⟩

theorem runFrom_of_done (done : live.Done schedule input) :
    (runFrom schedule records input live).1 = live := by
  unfold runFrom
  split_ifs with decided
  · rfl
  obtain settled := done.resolve_left decided
  split
  · rfl
  · rfl
  rename_i data checked given
  obtain ⟨nothing, idle⟩ := settled data given
  unfold advance
  split
  · rfl
  rw [nothing]
  show (decideIfDue schedule input data live).1 = live
  rw [decideIfDue, if_neg idle]

/-- A book that follows the owner's records has its switch in its state. -/
def Live.Adopted (records : Records) (live : Live) : Prop :=
  live.state.emissions = [] ∧ (records.enabled = true → live.state.realFills.isSome = true)

theorem start_adopted (book : Book) (broker : DailyBroker) (pending : List StrategyOrder) :
    (book.start broker pending).Adopted (readRecords book.lines) := by
  refine ⟨(adopt_account _ _).2, fun enabled => ?_⟩
  show (adopt _ _).realFills.isSome = true
  unfold adopt
  split_ifs with switched
  · rfl
  · cases follows : book.state.realFills with
    | none => exact absurd ⟨enabled, by simp [Live.reconcile, follows]⟩ switched
    | some mode => simp [Live.reconcile, follows]

theorem runFrom_adopted (adopted : live.Adopted records) :
    (runFrom schedule records input live).1.Adopted records := by
  refine runFrom_invariant (P := Live.Adopted records) (V := fun _ => True) schedule records input
    ?_ ?_ (fun _ _ => trivial) adopted
  · rintro v settled - - - settling before
    have settles := settle_settles settling.settles
    exact ⟨settles.emissions, fun enabled => settles.follows (before.2 enabled)⟩
  · rintro live decided decides before
    obtain ⟨_, -, -, emissions, -, follows⟩ := decide_curve decides before.1
    exact ⟨emissions, fun enabled => follows ▸ before.2 enabled⟩

theorem start_leave (adopted : left.Adopted (readRecords book.lines)) (broker : DailyBroker)
    (pending : List StrategyOrder) :
    ((book.leave left).start broker pending).state = left.state ∧
      ((book.leave left).start broker pending).journal = left.journal := by
  obtain ⟨emissions, follows⟩ := adopted
  refine ⟨?_, (congrArg (left.journal ++ ·) emissions).trans (List.append_nil _)⟩
  have same : ({ left.state with emissions := [] } : PaperState) = left.state := by
    cases left with
    | mk state => cases state; subst emissions; rfl
  show adopt { left.state with emissions := [] } (readRecords book.lines) = left.state
  rw [same, adopt, if_neg]
  rintro ⟨enabled, absent⟩
  have switched := follows enabled
  rw [Option.isNone_iff_eq_none] at absent
  rw [absent] at switched
  cases switched

/-- A run that has come to its end may be run again: nothing in the book changes. -/
theorem rerun_changes_nothing (profile : BrokerProfile) (schedule : StrategySchedule) (book : Book)
    (input : RunInput) (finished : (runDay profile schedule book input).2 = none) :
    (runDay profile schedule (runDay profile schedule book input).1 input).1 =
      (runDay profile schedule book input).1 := by
  cases restored : book.restore profile with
  | error e =>
    rw [runDay, restored] at finished
    cases finished
  | ok live =>
    obtain ⟨broker, pending, -, -, rfl⟩ := restore_eq_ok restored
    have run : runDay profile schedule book input =
        (book.leave (runFrom schedule (readRecords book.lines) input (book.start broker pending)).1,
          (runFrom schedule (readRecords book.lines) input (book.start broker pending)).2) := by
      rw [runDay, restored]
    rw [run] at finished ⊢
    have adopted : (runFrom schedule (readRecords book.lines) input
        (book.start broker pending)).1.Adopted (readRecords book.lines) :=
      runFrom_adopted (start_adopted book broker pending)
    have done : (runFrom schedule (readRecords book.lines) input
        (book.start broker pending)).1.Done schedule input := runFrom_done (Prod.ext rfl finished)
    generalize (runFrom schedule (readRecords book.lines) input (book.start broker pending)).1 = left
      at adopted done ⊢
    dsimp only
    cases again : (book.leave left).restore profile with
    | error e => rw [runDay, again]
    | ok live =>
      obtain ⟨broker', pending', -, -, rfl⟩ := restore_eq_ok again
      obtain ⟨state, journal⟩ := start_leave adopted broker' pending'
      have done' : ((book.leave left).start broker' pending').Done schedule input := by
        unfold Live.Done
        rw [state, journal]
        exact done
      rw [runDay, again]
      dsimp only
      rw [runFrom_of_done done']
      unfold Book.leave at state journal ⊢
      rw [state, journal]

/-- The run that settles the buy of the day before may be run again. -/
theorem rerun_of_second_day :
    let book := Book.after {} smallSchedule
      [.run (smallRun smallData [buyLot "600000.SH" 20240102] 20240102)]
    let left := (runDay {} smallSchedule book (smallRun smallData [] 20240103)).1
    left.state.settledThrough = some 20240102 ∧
      (runDay {} smallSchedule left (smallRun smallData [] 20240103)).1 = left :=
  ⟨by decide +kernel, rerun_changes_nothing {} smallSchedule
    (Book.after {} smallSchedule [.run (smallRun smallData [buyLot "600000.SH" 20240102] 20240102)])
    (smallRun smallData [] 20240103) (by decide +kernel)⟩

end AutoTrade
