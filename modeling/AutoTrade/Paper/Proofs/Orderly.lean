import AutoTrade.Paper.Proofs.Closure
import AutoTrade.Paper.Proofs.LotLedger

/-!
# Books in order

What every run of a book keeps of its lots and its ledger: the lots were
acquired before the sessions to come, every ex-date of the account is in its
journals, every session of the ledger has settled, and only sessions of the
ledger were ever corrected.
-/

namespace AutoTrade

open DailyBroker

variable {records : Records}

theorem corrections_sessions {late : List Nat} {history : List (Nat × CorporateAction)}
    {b : DailyBroker} {mode : Mode} {day : Nat} {corrected : Correcting}
    (h : corrections records late history b mode day = .ok corrected) :
    (∀ session, session ∈ corrected.sessions.keys ↔ session ∈ mode.sessions.keys) ∧
      ∀ row ∈ corrected.rows, row.corrects ∈ mode.sessions.keys := by
  refine foldlM_invariant (P := fun s : Correcting =>
    (∀ session, session ∈ s.sessions.keys ↔ session ∈ mode.sessions.keys) ∧
      ∀ row ∈ s.rows, row.corrects ∈ mode.sessions.keys) ?_ h ⟨fun _ => Iff.rfl, by simp⟩
  intro session member s s' pass start
  have inLedger := (List.mem_insertionSort _).mp member
  refine foldlM_invariant (P := fun s : Correcting =>
    (∀ session, session ∈ s.sessions.keys ↔ session ∈ mode.sessions.keys) ∧
      ∀ row ∈ s.rows, row.corrects ∈ mode.sessions.keys) ?_ pass start
  intro key _ t t' step ⟨sessions, rows⟩
  rcases correctKey_cases step with rfl | ⟨record, target, booked, -, -, -, made, rfl⟩
  · exact ⟨sessions, rows⟩
  refine ⟨?_, ?_⟩
  · intro other
    rw [Correcting.setReal, Dict.mem_keys_set, sessions other]
    constructor
    · rintro (rfl | there)
      · exact inLedger
      · exact there
    · exact .inr
  · intro row inRows
    rcases List.mem_append.mp inRows with old | new
    · exact rows row old
    · obtain ⟨change, moved, left, -, -, -, -, rfl⟩ := bookCorrection_eq_ok made
      rw [List.mem_singleton.mp new]
      exact inLedger

variable {history history' : List (Nat × CorporateAction)}

theorem pastOf_append {symbol : Symbol} {session : Nat} (h : pastOf history symbol session = true) :
    pastOf (history ++ history') symbol session = true := by
  simp only [pastOf, List.any_append, Bool.or_eq_true] at h ⊢
  exact .inl h

theorem corporateHistory_append (journal journal' : List Emission) :
    corporateHistory (journal ++ journal') = corporateHistory journal ++ corporateHistory journal' :=
  List.filterMap_append

theorem recordsExDate_mono {b b' : DailyBroker}
    (actions : b'.corporateActions = b.corporateActions) {symbol : Symbol} {session : Nat}
    (h : b.recordsExDate (pastOf history) symbol session = true) :
    b'.recordsExDate (pastOf (history ++ history')) symbol session = true := by
  simp only [recordsExDate, Bool.or_eq_true, actions] at h ⊢
  exact h.imp_right pastOf_append

/-- The account the run's last checkpoint holds. -/
def Live.account (profile : BrokerProfile) (live : Live) : AccountRecord :=
  live.state.account.getD (accountRecord (DailyBroker.new profile))

/-- A run in order. -/
structure Live.Orderly (profile : BrokerProfile) (live : Live) : Prop where
  profile_eq : live.broker.profile = profile
  lots : ∀ day, live.state.settledThrough.all (· < day) = true →
    live.broker.LotsKept day (pastOf (corporateHistory live.journal))
  actions : ∀ action ∈ live.broker.corporateActions,
    ∃ row ∈ corporateHistory live.journal, row.2 = action ∧ action.tradeDate ≤ row.1
  ledger : ∀ mode ∈ live.state.realFills, ∀ session ∈ mode.sessions.keys,
    live.state.settledThrough.any (session ≤ ·) = true
  corrected : ∀ row ∈ correctionsOf live.journal,
    ∃ mode ∈ live.state.realFills, row.corrects ∈ mode.sessions.keys
  emissions_eq : live.state.emissions = []
  account_lots : ∀ symbol, (live.account profile).lots.get? symbol = live.broker.lots.get? symbol

theorem session_lt {through : Option Nat} {session day : Nat}
    (settled : through.any (session ≤ ·) = true) (later : through.all (· < day) = true) :
    session < day := by
  cases through with
  | none => simp at settled
  | some t =>
    simp only [Option.any_some, Option.all_some, decide_eq_true_eq] at settled later
    omega

/-- What a day's fills leave of the account, the ledger and the corrections. -/
structure DayFills.InOrder (profile : BrokerProfile) (day : Nat) (live : Live)
    (opened : DailyBroker) (fills : DayFills) : Prop where
  account : InSession profile day (pastOf (corporateHistory live.journal)) opened.corporateActions
    fills.broker
  ledger : ∀ mode ∈ fills.realFills, ∃ before ∈ live.state.realFills,
    mode.after = before.after ∧
    ∀ session, session ∈ mode.sessions.keys ↔ session ∈ before.sessions.keys ∨
      (session = day ∧ before.covers day = true)
  kept : ∀ before ∈ live.state.realFills, ∃ mode, fills.realFills = some mode
  corrected : ∀ row ∈ correctionsOf fills.emissions,
    ∃ mode ∈ fills.realFills, row.corrects ∈ mode.sessions.keys

theorem correctionsOf_fills (day : Nat) (simulated : List Simulated) (rows : List ExecutionRow)
    (corrections : List CorrectionRow) :
    correctionsOf (simulated.map (fun x => Emission.simulatedExecution day x.2) ++
      corrections.map .correction ++ rows.map (.execution day)) = corrections := by
  simp [correctionsOf, List.filterMap_append, List.filterMap_map]

variable {profile : BrokerProfile} {live : Live}

theorem fillDay_inOrder {data : PaperData} {opened : DailyBroker} {day : Nat} {fills : DayFills}
    (orderly : live.Orderly profile) (later : live.state.settledThrough.all (· < day) = true)
    (account : InSession profile day (pastOf (corporateHistory live.journal))
      opened.corporateActions opened) (h : fillDay records data live opened day = .ok fills) :
    fills.InOrder profile day live opened := by
  rcases fillDay_cases h with ⟨mode, following, covered, filled⟩ | ⟨notCovered, filled⟩
  · obtain ⟨simulator, simulated, settled, -, settles, rfl⟩ := fillRecorded_eq_ok filled
    obtain ⟨corrected, applied, first, second, rfl⟩ := settleRecorded_eq_ok settles
    have past : ∀ session ∈ mode.sessions.keys, session < day + 1 := fun session member =>
      (session_lt (orderly.ledger mode (by simp [following]) session member) later).trans
        (Nat.lt_succ_self day)
    have same := corrections_sameCurves account.kept past first
    obtain ⟨sessions, rows⟩ := corrections_sessions first
    refine ⟨?_, ?_, ?_, ?_⟩
    · refine applyDay_invariant (fun _ _ _ _ _ _ made holds => InSession.recordFill holds made)
        second ⟨same.profile_eq.trans account.profile_eq, same.currentDay_eq.trans account.today,
          same.corporateActions_eq, same.kept⟩
    · intro mode' here
      obtain rfl := Option.some.inj here
      refine ⟨mode, by simp [following], rfl, fun session => ?_⟩
      rw [Dict.mem_keys_set, sessions session, or_comm]
      simp [covered]
    · exact fun _ _ => ⟨_, rfl⟩
    · intro row member
      rw [correctionsOf_fills] at member
      refine ⟨_, rfl, ?_⟩
      rw [Dict.mem_keys_set, sessions]
      exact .inr (rows row member)
  · obtain ⟨left, simulated, executed, rfl⟩ := fillSimulated_eq_ok filled
    refine ⟨executeAll_inSession account executed, ?_, ?_, ?_⟩
    · intro mode here
      refine ⟨mode, here, rfl, fun session => ?_⟩
      simp [notCovered mode here]
    · exact fun before here => ⟨before, here⟩
    · intro row member
      simp [correctionsOf, List.filterMap_map] at member

theorem correctionsOf_closeDay (data : PaperData) (opened : DailyBroker) (fills : DayFills)
    (day : Nat) (none : live.state.emissions = []) :
    correctionsOf (closeDay data live opened fills day).checkpoint.reconcile.journal =
      correctionsOf live.journal ++ correctionsOf fills.emissions := by
  obtain ⟨row, journal⟩ := closeDay_journal data opened fills day none
  rw [journal, correctionsOf_append, correctionsOf_append, correctionsOf_append,
    correctionsOf_actions, List.nil_append]
  simp [correctionsOf]

theorem corporateHistory_closeDay (data : PaperData) (opened : DailyBroker) (fills : DayFills)
    (day : Nat) (none : live.state.emissions = []) :
    ∃ rest, corporateHistory (closeDay data live opened fills day).checkpoint.reconcile.journal =
      corporateHistory live.journal ++
        ((opened.corporateActions.drop live.broker.corporateActions.length).map
          (fun action => (day, action)) ++ rest) := by
  obtain ⟨row, journal⟩ := closeDay_journal data opened fills day none
  refine ⟨corporateHistory (fills.emissions ++ [.equity row]), ?_⟩
  rw [journal, corporateHistory_append, List.append_assoc, corporateHistory_append]
  congr 2
  rw [corporateHistory, List.filterMap_map]
  exact congrFun List.filterMap_eq_map _

theorem settle_orderly {data : PaperData} {live settled : Live} {day : Nat}
    (orderly : live.Orderly profile) (later : live.state.settledThrough.all (· < day) = true)
    (h : settle records data live day = .ok settled) : settled.Orderly profile := by
  obtain ⟨opened, fills, opens, filled, rfl⟩ := settle_eq_ok h
  obtain ⟨profileEq, today, actions, recorded, dated⟩ := openDay_spec opens
  have kept : opened.LotsKept (day + 1) (pastOf (corporateHistory live.journal)) := fun symbol =>
    (openDay_lotsKept (orderly.lots day later) opens symbol).mono (Nat.le_succ day) fun _ => id
  have inOrder := fillDay_inOrder orderly later
    ⟨profileEq.trans orderly.profile_eq, today, rfl, kept⟩ filled
  obtain ⟨rest, history⟩ := corporateHistory_closeDay data opened fills day
    orderly.emissions_eq
  refine ⟨inOrder.account.profile_eq, ?_, ?_, ?_, ?_, rfl, ?_⟩
  · intro day' after symbol
    have past : day + 1 ≤ day' := by
      change Option.all _ (some day) = true at after
      rw [Option.all_some, decide_eq_true_eq] at after
      exact after
    refine (inOrder.account.kept symbol).mono past fun session earlier => ?_
    rw [history]
    exact recordsExDate_mono rfl earlier
  · intro action member
    have inOpened : action ∈ opened.corporateActions :=
      inOrder.account.corporateActions_eq ▸ member
    rw [history]
    rw [recorded] at inOpened
    rcases List.mem_append.mp inOpened with old | new
    · obtain ⟨row, inHistory, same, bound⟩ := orderly.actions action old
      exact ⟨row, List.mem_append_left _ inHistory, same, bound⟩
    · refine ⟨(day, action), ?_, rfl, (dated action new).le⟩
      refine List.mem_append_right _ (List.mem_append_left _ (List.mem_map.mpr ⟨action, ?_, rfl⟩))
      rw [recorded, List.drop_left]
      exact new
  · intro mode here session member
    obtain ⟨before, following, -, sessions⟩ := inOrder.ledger mode here
    change Option.any _ (some day) = true
    rw [Option.any_some, decide_eq_true_eq]
    rcases (sessions session).mp member with old | ⟨rfl, -⟩
    · exact (session_lt (orderly.ledger before following session old) later).le
    · exact le_refl _
  · intro row member
    rw [correctionsOf_closeDay data opened fills day orderly.emissions_eq] at member
    rcases List.mem_append.mp member with old | new
    · obtain ⟨before, following, inLedger⟩ := orderly.corrected row old
      obtain ⟨mode, here⟩ := inOrder.kept before following
      obtain ⟨before', following', -, sessions⟩ := inOrder.ledger mode here
      obtain rfl := Option.some.inj (following.symm.trans following')
      exact ⟨mode, here, (sessions _).mpr (.inl inLedger)⟩
    · exact inOrder.corrected row new
  · intro symbol
    simp only [Live.account, Live.reconcile, Live.checkpoint, Option.getD_some, accountRecord,
      lotRecords, sortedDict_get?]

variable {schedule : StrategySchedule}

theorem decide_orderly {input : RunInput} {live decided : Live} (orderly : live.Orderly profile)
    (h : decideSession schedule input live = .ok decided) : decided.Orderly profile := by
  obtain ⟨orders, -, rfl⟩ := decideSession_eq_ok h
  have journal := recordDecision_journal input (schedule.at input.tradeDate) orders
    orderly.emissions_eq
  refine ⟨orderly.profile_eq, ?_, ?_, orderly.ledger, ?_, rfl, ?_⟩
  · intro day after symbol
    refine (orderly.lots day after symbol).mono (le_refl _) fun session earlier => ?_
    rw [journal, corporateHistory_append]
    exact recordsExDate_mono rfl earlier
  · intro action member
    obtain ⟨row, inHistory, same, bound⟩ := orderly.actions action member
    refine ⟨row, ?_, same, bound⟩
    rw [journal, corporateHistory_append]
    exact List.mem_append_left _ inHistory
  · intro row member
    refine orderly.corrected row ?_
    rw [journal, correctionsOf_append] at member
    rcases List.mem_append.mp member with old | new
    · exact old
    · simp [correctionsOf, List.filterMap_map] at new
  · intro symbol
    simp only [Live.account, Live.reconcile, Live.checkpoint, Option.getD_some, accountRecord,
      lotRecords, sortedDict_get?]

structure Book.Orderly (profile : BrokerProfile) (book : Book) : Prop where
  lots : ∀ day, book.state.settledThrough.all (· < day) = true → ∀ symbol,
    LotsKept day (pastOf (corporateHistory book.journal) symbol)
      (((book.account profile).lots.get? symbol).getD [])
  ledger : ∀ mode ∈ book.state.realFills, ∀ session ∈ mode.sessions.keys,
    book.state.settledThrough.any (session ≤ ·) = true
  corrected : ∀ row ∈ correctionsOf book.journal,
    ∃ mode ∈ book.state.realFills, row.corrects ∈ mode.sessions.keys
  emissions_eq : book.state.emissions = []

theorem restoreBroker_lots {account : Option AccountRecord} {b : DailyBroker}
    (h : restoreBroker profile account = .ok b) :
    b.profile = profile ∧ b.corporateActions = [] ∧ ∀ symbol, b.lots.get? symbol =
      (account.getD (accountRecord (DailyBroker.new profile))).lots.get? symbol := by
  cases account with
  | none =>
    obtain rfl := Except.ok.inj h
    refine ⟨rfl, rfl, fun symbol => ?_⟩
    simp [accountRecord, lotRecords, sortedDict_get?]
  | some account =>
    unfold restoreBroker at h
    dsimp only at h
    split at h
    · cases h
    rename_i restored restores
    obtain rfl := Except.ok.inj h
    unfold restoreLots at restores
    dsimp only at restores
    split_ifs at restores
    obtain rfl := Except.ok.inj restores
    exact ⟨rfl, rfl, fun _ => rfl⟩

variable {book : Book}

theorem start_orderly (orderly : book.Orderly profile) {broker : DailyBroker}
    {pending : List StrategyOrder}
    (restores : restoreBroker profile book.state.account = .ok broker) :
    (book.start broker pending).Orderly profile := by
  obtain ⟨profileEq, none, lots⟩ := restoreBroker_lots restores
  have adopted : (adopt ({ book.state with emissions := [] }) (readRecords book.lines)).settledThrough =
      book.state.settledThrough ∧
      ∀ mode ∈ (adopt ({ book.state with emissions := [] }) (readRecords book.lines)).realFills,
        mode ∈ book.state.realFills ∨ mode.sessions.keys = [] := by
    unfold adopt
    split_ifs
    · refine ⟨rfl, fun mode here => .inr ?_⟩
      obtain rfl := Option.some.inj here
      rfl
    · exact ⟨rfl, fun mode here => .inl here⟩
  have kept : ∀ mode ∈ book.state.realFills,
      mode ∈ (adopt ({ book.state with emissions := [] }) (readRecords book.lines)).realFills := by
    intro mode here
    have some : book.state.realFills = some mode := here
    unfold adopt
    rw [if_neg (by simp [some])]
    exact here
  have account := adopt_account ({ book.state with emissions := [] }) (readRecords book.lines)
  have journal : book.journal ++ book.state.emissions = book.journal := by
    rw [orderly.emissions_eq, List.append_nil]
  refine ⟨profileEq, ?_, ?_, ?_, ?_, account.2, ?_⟩
  · intro day after symbol
    have bookLots := orderly.lots day (adopted.1 ▸ after) symbol
    change LotsKept day (broker.recordsExDate (pastOf (corporateHistory (book.journal ++
      book.state.emissions))) symbol) ((broker.lots.get? symbol).getD [])
    rw [lots symbol, journal]
    refine bookLots.mono (le_refl _) fun session recorded => ?_
    simp [recordsExDate, recorded]
  · intro action member
    have : action ∈ broker.corporateActions := member
    rw [none] at this
    cases this
  · intro mode here session member
    change Option.any _ (adopt _ _).settledThrough = true
    rw [Live.reconcile, adopted.1]
    rcases adopted.2 mode here with old | empty
    · exact orderly.ledger mode old session member
    · rw [empty] at member
      cases member
  · intro row member
    have inBook : row ∈ correctionsOf book.journal := by
      change row ∈ correctionsOf (book.journal ++ book.state.emissions) at member
      rwa [journal] at member
    obtain ⟨mode, here, inLedger⟩ := orderly.corrected row inBook
    exact ⟨mode, kept mode here, inLedger⟩
  · intro symbol
    change ((adopt _ _).account.getD _).lots.get? symbol = broker.lots.get? symbol
    rw [Live.reconcile, account.1, lots]

theorem leave_orderly {left : Live} (orderly : left.Orderly profile) (book : Book) :
    (book.leave left).Orderly profile := by
  refine ⟨?_, orderly.ledger, orderly.corrected, orderly.emissions_eq⟩
  intro day after symbol
  have kept := orderly.lots day after symbol
  change LotsKept day _ (((left.account profile).lots.get? symbol).getD [])
  rw [orderly.account_lots]
  refine kept.mono (le_refl _) fun session recorded => ?_
  -- What the account remembers of this run's ex-dates is in the journals.
  simp only [recordsExDate, Bool.or_eq_true, List.any_eq_true, decide_eq_true_eq] at recorded
  rcases recorded with ⟨action, member, rfl, after⟩ | recorded
  · obtain ⟨row, inHistory, rfl, bound⟩ := orderly.actions action member
    exact List.any_eq_true.mpr ⟨row, inHistory, decide_eq_true ⟨by omega, rfl⟩⟩
  · exact recorded

theorem runDay_orderly (orderly : book.Orderly profile) (input : RunInput) :
    (runDay profile schedule book input).1.Orderly profile := by
  unfold runDay
  split
  · exact orderly
  · rename_i live restores
    obtain ⟨broker, pending, restored, -, rfl⟩ := restore_eq_ok restores
    refine leave_orderly ?_ book
    refine runFrom_invariant (V := fun _ => True) schedule _ input ?_ ?_ (fun _ _ => trivial)
      (start_orderly orderly restored)
    · exact fun v settled _ _ _ settling before => settle_orderly before settling.later settling.settles
    · exact fun live decided decides before => decide_orderly before decides

theorem step_orderly (orderly : book.Orderly profile) (event : BookEvent) :
    (book.step profile schedule event).Orderly profile := by
  cases event with
  | append line => exact ⟨orderly.lots, orderly.ledger, orderly.corrected, orderly.emissions_eq⟩
  | run input => exact runDay_orderly orderly input

theorem after_orderly (profile : BrokerProfile) (schedule : StrategySchedule)
    (events : List BookEvent) : (Book.after profile schedule events).Orderly profile := by
  have run : ∀ (events : List BookEvent) (book : Book), book.Orderly profile →
      (events.foldl (Book.step profile schedule) book).Orderly profile := by
    intro events
    induction events with
    | nil => exact fun _ orderly => orderly
    | cons event rest ih =>
      intro book orderly
      apply ih
      exact step_orderly orderly event
  refine run events Book.new ⟨?_, by simp [Book.new, PaperState.new],
    by simp [Book.new, correctionsOf], rfl⟩
  intro day _ symbol
  have none : ((Book.new.account profile).lots.get? symbol).getD [] = [] := by
    simp [Book.account, Book.new, PaperState.new, accountRecord, lotRecords, sortedDict_get?,
      DailyBroker.new]
  rw [none]
  exact LotsKept.nil _ _

end AutoTrade
