import AutoTrade.Paper.Proofs.Orderly
import AutoTrade.Paper.Proofs.UpToDate

/-!
# Corrections are idempotent

A session that settled from records that last is never corrected while nothing
more is recorded of it: its entries stay up to date (`Stands`) through every
correction pass, session and decision of every later run.
-/

namespace AutoTrade

open DailyBroker

/-- Whether a line says something of the session's key. -/
def RecordLine.touches (session : Nat) (key : OrderKey) : RecordLine → Bool
  | .enable => false
  | .session _ day _ => day = session
  | .fill line => line.tradeDate = session ∧ line.key = key

/-- Whether an event bears on the session's key: a record of it, or a run for the
session itself, which would make the session post hoc. -/
def BookEvent.touches (session : Nat) (key : OrderKey) : BookEvent → Bool
  | .append line => line.touches session key
  | .run input => input.tradeDate = session

variable {session : Nat} {key : OrderKey} {records : Records}

theorem resolve_read {line : RecordLine} (untouched : line.touches session key = false)
    (ordered late : Bool) :
    resolve (records.read line) session key ordered late =
      resolve records session key ordered late := by
  cases line with
  | enable => rfl
  | session eventId day outcome =>
    have different : day ≠ session := by simpa [RecordLine.touches] using untouched
    simp only [resolve, Records.read, Dict.get?_set_of_ne _ _ different]
  | fill line =>
    have different : (line.tradeDate, line.key) ≠ (session, key) := by
      intro same
      obtain ⟨day, keyEq⟩ := Prod.mk.inj same
      simp [RecordLine.touches, day, keyEq] at untouched
    simp only [resolve, Records.read, Dict.get?_set_of_ne _ _ different]

variable {profile : BrokerProfile}

theorem UpToDate.congr {records records' : Records} {late late' : List Nat} {entry : Entry}
    (h : UpToDate profile records late session key entry)
    (same : resolve records' session key (entry.ordered ≠ 0) (session ∈ late') =
      resolve records session key (entry.ordered ≠ 0) (session ∈ late)) :
    UpToDate profile records' late' session key entry := by
  intro record resolved
  rw [same] at resolved
  exact h record resolved

/-- The ledger entry of a key of a session. -/
def entryIn (sessions : Dict Nat Ledger) (session : Nat) (key : OrderKey) : Entry :=
  (((sessions.get? session).getD Dict.empty).get? key).getD emptyEntry

theorem entryIn_setReal {s : Correcting} {session session' : Nat} {key key' : OrderKey}
    {real : Outcome} (different : ¬ (session' = session ∧ key' = key)) :
    entryIn (s.setReal session' key' real) session key = entryIn s.sessions session key := by
  unfold entryIn Correcting.setReal
  rw [Dict.get?_set]
  by_cases here : session' = session
  · subst here
    have other : key' ≠ key := fun equal => different ⟨rfl, equal⟩
    rw [if_pos rfl, Option.getD_some, Dict.get?_set_of_ne _ _ other]
  · rw [if_neg here]

/-- No row of the journal corrects the session's key. -/
def Uncorrected (session : Nat) (key : OrderKey) (rows : List CorrectionRow) : Prop :=
  ∀ row ∈ rows, ¬ (row.corrects = session ∧ row.key = key)

theorem Uncorrected.append {rows rows' : List CorrectionRow} (h : Uncorrected session key rows)
    (h' : Uncorrected session key rows') :
    Uncorrected session key (rows ++ rows') := by
  intro row member
  rcases List.mem_append.mp member with old | new
  · exact h row old
  · exact h' row new

theorem corrections_stand {late : List Nat} {history : List (Nat × CorporateAction)}
    {b : DailyBroker} {mode : Mode} {day session : Nat} {corrected : Correcting}
    (same : b.profile = profile)
    (upToDate : UpToDate profile records late session key (entryIn mode.sessions session key))
    (h : corrections records late history b mode day = .ok corrected) :
    entryIn corrected.sessions session key = entryIn mode.sessions session key ∧
      Uncorrected session key corrected.rows := by
  let Standing := fun s : Correcting => s.broker.profile = profile ∧
    entryIn s.sessions session key = entryIn mode.sessions session key ∧
    Uncorrected session key s.rows
  have pass : Standing corrected := by
    refine foldlM_invariant (P := Standing) ?_ h ⟨same, rfl, by simp [Uncorrected]⟩
    intro session' _ s s' run start
    refine foldlM_invariant (P := Standing) ?_ run start
    intro key' _ t t' step ⟨profileEq, entry, rows⟩
    rcases correctKey_cases step with rfl | ⟨record, target, booked, resolved, targeted, differs,
      made, rfl⟩
    · exact ⟨profileEq, entry, rows⟩
    have different : ¬ (session' = session ∧ key' = key) := by
      rintro ⟨rfl, rfl⟩
      have here : t.entry session' key' = entryIn mode.sessions session' key' := entry
      rw [here] at resolved targeted differs
      obtain ⟨target', asked, agrees⟩ := upToDate record resolved
      rw [profileEq, asked] at targeted
      rw [← Except.ok.inj targeted, agrees] at differs
      cases differs
    obtain ⟨change, moved, left, -, shares, -, -, rfl⟩ := bookCorrection_eq_ok made
    obtain ⟨⟨lots, rfl⟩, -⟩ := moveShares_spec shares
    refine ⟨profileEq, (entryIn_setReal different).trans entry, rows.append ?_⟩
    intro row member
    rw [List.mem_singleton.mp member]
    exact different
  exact ⟨pass.2.1, pass.2.2⟩

/-- What a session must meet as the run opens it. -/
def Visit.Lasts (v : Visit) : Prop :=
  v.follows = true → AutoTrade.Lasts v.records v.late v.day v.opened v.due

instance (v : Visit) : Decidable v.Lasts := inferInstanceAs (Decidable (_ → _))

/-- A key of a settled session that is up to date and was never corrected. -/
structure Stands (profile : BrokerProfile) (records : Records) (session : Nat) (key : OrderKey)
    (state : PaperState) (journal : List Emission) : Prop where
  settled : ∃ mode ∈ state.realFills, session ∈ mode.sessions.keys ∧
    UpToDate profile records (postHocSessions state.decisions) session key
      (entryIn mode.sessions session key)
  uncorrected : Uncorrected session key (correctionsOf journal)

theorem settle_stands {data : PaperData} {live settled : Live} {day session : Nat}
    (orderly : live.Orderly profile) (later : live.state.settledThrough.all (· < day) = true)
    (stands : Stands profile records session key live.state live.journal)
    (h : settle records data live day = .ok settled) :
    Stands profile records session key settled.state settled.journal := by
  obtain ⟨opened, fills, opens, filled, rfl⟩ := settle_eq_ok h
  obtain ⟨mode, following, member, upToDate⟩ := stands.settled
  have earlier := session_lt (orderly.ledger mode following session member) later
  have fillsStand : (∃ mode' ∈ fills.realFills, session ∈ mode'.sessions.keys ∧
      entryIn mode'.sessions session key = entryIn mode.sessions session key) ∧
      Uncorrected session key (correctionsOf fills.emissions) := by
    rcases fillDay_cases filled with ⟨mode', following', -, filled⟩ | ⟨-, filled⟩
    · obtain rfl := Option.some.inj (following'.symm.trans following)
      obtain ⟨simulator, simulated, left, -, settles, rfl⟩ := fillRecorded_eq_ok filled
      obtain ⟨corrected, applied, first, -, rfl⟩ := settleRecorded_eq_ok settles
      obtain ⟨entry, rows⟩ := corrections_stand
        ((openDay_spec opens).1.trans orderly.profile_eq) upToDate first
      refine ⟨⟨_, rfl, ?_, ?_⟩, ?_⟩
      · exact Dict.mem_keys_set.mpr (.inr (((corrections_sessions first).1 session).mpr member))
      · rw [← entry]
        unfold entryIn
        rw [Dict.get?_set_of_ne _ _ earlier.ne']
      · rw [correctionsOf_fills]
        exact rows
    · obtain ⟨left, simulated, -, rfl⟩ := fillSimulated_eq_ok filled
      refine ⟨⟨mode, following, member, rfl⟩, ?_⟩
      simp [Uncorrected, correctionsOf, List.filterMap_map]
  obtain ⟨⟨mode', here, member', entry⟩, rows⟩ := fillsStand
  refine ⟨⟨mode', here, member', ?_⟩, ?_⟩
  · rw [entry]
    exact upToDate
  · rw [correctionsOf_closeDay data opened fills day orderly.emissions_eq]
    exact stands.uncorrected.append rows

theorem settle_joins {data : PaperData} {live settled : Live} {opened : DailyBroker} {day : Nat}
    (orderly : live.Orderly profile) (later : live.state.settledThrough.all (· < day) = true)
    (opens : live.broker.openDay day (data.market.bars day) (data.market.distributions day) =
      .ok opened) (lasts : Visit.Lasts ⟨records, data, live, opened, day⟩)
    (joined : ∃ mode ∈ settled.state.realFills, day ∈ mode.sessions.keys)
    (h : settle records data live day = .ok settled) (key : OrderKey) :
    Stands profile records day key settled.state settled.journal := by
  obtain ⟨opened', fills, opens', filled, rfl⟩ := settle_eq_ok h
  obtain rfl := Except.ok.inj (opens.symm.trans opens')
  have fresh : ∀ mode ∈ live.state.realFills, day ∉ mode.sessions.keys := by
    intro mode following member
    have := session_lt (orderly.ledger mode following day member) later
    omega
  obtain ⟨profileEq, today, -, -, -⟩ := openDay_spec opens
  have kept : opened.LotsKept (day + 1) (pastOf (corporateHistory live.journal)) := fun symbol =>
    (openDay_lotsKept (orderly.lots day later) opens symbol).mono (Nat.le_succ day) fun _ => id
  have zero : ∀ symbol, opened.taxCurve day symbol 0 = 0 := by
    intro symbol
    unfold taxCurve
    split_ifs
    · exact taxUpTo_zero day (kept symbol).positive
    · rfl
  have alongOf : ∀ b : DailyBroker, SameCurves (day + 1) (pastOf (corporateHistory live.journal))
      opened b → Along day (morning opened day) [] b := by
    intro b same
    refine ⟨same.currentDay_eq.trans today, fun symbol => (same.kept symbol).positive, ?_⟩
    intro symbol n _
    rw [same.curve_eq, soldIn_nil, zero_add, morning, morning, zero, sub_zero]
  rcases fillDay_cases filled with ⟨mode, following, covered, filled⟩ | ⟨notCovered, filled⟩
  · have follows : Visit.follows ⟨records, data, live, opened, day⟩ = true := by
      simp [Visit.follows, following, covered]
    obtain ⟨simulator, simulated, left, executed, settles, rfl⟩ := fillRecorded_eq_ok filled
    obtain ⟨corrected, applied, first, second, rfl⟩ := settleRecorded_eq_ok settles
    have past : ∀ session ∈ mode.sessions.keys, session < day + 1 := fun session member =>
      (session_lt (orderly.ledger mode following session member) later).trans (Nat.lt_succ_self day)
    have same := corrections_sameCurves kept past first
    obtain ⟨orders, runs⟩ := executeAll_executed (P := fun _ => True) (fun _ _ => trivial) executed
    have lasting := lasts follows
    simp only [Visit.due, Visit.late] at lasting
    rw [← orders] at lasting
    have upToDate := applyDay_upToDate runs lasting (alongOf opened (.refl kept))
      (alongOf corrected.broker same) same.profile_eq second key
    rw [same.profile_eq, profileEq, orderly.profile_eq] at upToDate
    refine ⟨⟨_, rfl, Dict.mem_keys_set.mpr (.inl rfl), ?_⟩, ?_⟩
    · unfold entryIn
      rw [Dict.get?_set_self]
      exact upToDate
    · rw [correctionsOf_closeDay data opened _ day orderly.emissions_eq, correctionsOf_fills]
      refine Uncorrected.append ?_ ?_
      · intro row member same
        obtain ⟨before, here, inLedger⟩ := orderly.corrected row member
        exact fresh before here (same.1 ▸ inLedger)
      · intro row member same
        exact fresh mode following (same.1 ▸ (corrections_sessions first).2 row member)
  · obtain ⟨left, simulated, -, rfl⟩ := fillSimulated_eq_ok filled
    obtain ⟨mode, here, member⟩ := joined
    exact absurd member (fresh mode here)

theorem mem_postHocSessions_append {decisions : List Decision} {decision : Decision}
    (other : decision.tradeDate ≠ session) :
    session ∈ postHocSessions (decisions ++ [decision]) ↔ session ∈ postHocSessions decisions := by
  unfold postHocSessions
  rw [List.filter_append, List.map_append, List.mem_append]
  refine or_iff_left fun member => ?_
  obtain ⟨row, here, equal⟩ := List.mem_map.mp member
  obtain rfl := List.mem_singleton.mp (List.mem_filter.mp here).1
  exact other equal

variable {schedule : StrategySchedule}

theorem decide_stands {input : RunInput} {live decided : Live} (orderly : live.Orderly profile)
    (other : input.tradeDate ≠ session)
    (stands : Stands profile records session key live.state live.journal)
    (h : decideSession schedule input live = .ok decided) :
    Stands profile records session key decided.state decided.journal := by
  obtain ⟨orders, -, rfl⟩ := decideSession_eq_ok h
  obtain ⟨mode, following, member, upToDate⟩ := stands.settled
  refine ⟨⟨mode, following, member, upToDate.congr ?_⟩, ?_⟩
  · refine congrArg (resolve records session key _) ?_
    refine decide_eq_decide.mpr ?_
    exact mem_postHocSessions_append other
  · rw [recordDecision_journal _ _ _ orderly.emissions_eq, correctionsOf_append]
    refine stands.uncorrected.append ?_
    simp [Uncorrected, correctionsOf, List.filterMap_map]

/-- The sessions of the book's fill ledger. -/
def PaperState.settledSessions (state : PaperState) : List Nat :=
  (state.realFills.map fun mode => mode.sessions.keys).getD []

theorem mem_settledSessions {state : PaperState} :
    session ∈ state.settledSessions ↔ ∃ mode ∈ state.realFills, session ∈ mode.sessions.keys := by
  unfold PaperState.settledSessions
  cases state.realFills <;> simp

variable {book : Book}

theorem start_stands (orderly : book.Orderly profile) (broker : DailyBroker)
    (pending : List StrategyOrder)
    (stands : Stands profile (readRecords book.lines) session key book.state book.journal) :
    Stands profile (readRecords book.lines) session key (book.start broker pending).state
      (book.start broker pending).journal := by
  obtain ⟨mode, following, member, upToDate⟩ := stands.settled
  have unchanged : adopt { book.state with emissions := [] } (readRecords book.lines) =
      { book.state with emissions := [] } := by
    have some : book.state.realFills = some mode := following
    unfold adopt
    rw [if_neg (by simp [some])]
  refine ⟨⟨mode, ?_, member, ?_⟩, ?_⟩
  · change mode ∈ (adopt _ _).realFills
    rw [Live.reconcile, unchanged]
    exact following
  · change UpToDate profile _ (postHocSessions (adopt _ _).decisions) session key _
    rw [Live.reconcile, unchanged]
    exact upToDate
  · change Uncorrected session key (correctionsOf (book.journal ++ book.state.emissions))
    rw [orderly.emissions_eq, List.append_nil]
    exact stands.uncorrected

theorem step_stands {event : BookEvent} (orderly : book.Orderly profile)
    (untouched : event.touches session key = false)
    (stands : Stands profile (readRecords book.lines) session key book.state book.journal) :
    Stands profile (readRecords (book.step profile schedule event).lines) session key
      (book.step profile schedule event).state (book.step profile schedule event).journal := by
  cases event with
  | append line =>
    obtain ⟨mode, following, member, upToDate⟩ := stands.settled
    refine ⟨⟨mode, following, member, upToDate.congr ?_⟩, stands.uncorrected⟩
    simp only [Book.step, readRecords_append]
    exact resolve_read untouched _ _
  | run input =>
    have other : input.tradeDate ≠ session := by simpa [BookEvent.touches] using untouched
    simp only [Book.step, runDay]
    split
    · exact stands
    rename_i live restores
    obtain ⟨broker, pending, restored, -, rfl⟩ := restore_eq_ok restores
    refine (runFrom_invariant (V := fun _ => True) (P := fun live => live.Orderly profile ∧
      Stands profile (readRecords book.lines) session key live.state live.journal) schedule _ input
      ?_ ?_ (fun _ _ => trivial)
      ⟨start_orderly orderly restored, start_stands orderly broker pending stands⟩).2
    · rintro v settled same _ _ settling ⟨inOrder, before⟩
      have settles := settling.settles
      rw [same] at settles
      exact ⟨settle_orderly inOrder settling.later settles,
        settle_stands inOrder settling.later before settles⟩
    · rintro live decided decides ⟨inOrder, before⟩
      exact ⟨decide_orderly inOrder decides, decide_stands inOrder other before decides⟩

theorem run_joins {input : RunInput} (orderly : book.Orderly profile)
    (joins : session ∉ book.state.settledSessions)
    (settled : session ∈ (book.step profile schedule (.run input)).state.settledSessions)
    (lasting : ∀ v ∈ book.visits profile schedule (.run input), v.day = session → v.Lasts)
    (key : OrderKey) :
    Stands profile (readRecords (book.step profile schedule (.run input)).lines) session key
      (book.step profile schedule (.run input)).state
      (book.step profile schedule (.run input)).journal := by
  simp only [Book.step, runDay] at settled ⊢
  simp only [Book.visits] at lasting
  split
  · rename_i e restores
    rw [restores] at settled
    exact absurd settled joins
  rename_i live restores
  rw [restores] at settled lasting
  dsimp only at settled lasting
  obtain ⟨broker, pending, restored, -, rfl⟩ := restore_eq_ok restores
  have started : (book.start broker pending).Orderly profile := start_orderly orderly restored
  have notYet : session ∉ (book.start broker pending).state.settledSessions := by
    intro member
    obtain ⟨mode, here, inLedger⟩ := mem_settledSessions.mp member
    change mode ∈ (adopt _ _).realFills at here
    unfold adopt at here
    split_ifs at here
    · obtain rfl := Option.some.inj here
      simp [Dict.keys] at inLedger
    · exact joins (mem_settledSessions.mpr ⟨mode, here, inLedger⟩)
  have whole := runFrom_invariant (V := fun v => v.day = session → v.Lasts)
    (P := fun live => live.Orderly profile ∧ (session ∈ live.state.settledSessions →
      session < input.tradeDate ∧
      Stands profile (readRecords book.lines) session key live.state live.journal)) schedule _ input
    (fun v settled same lasts before settling start => by
      obtain ⟨inOrder, standing⟩ := start
      refine ⟨settle_orderly inOrder settling.later settling.settles, fun member => ?_⟩
      rw [← same] at standing ⊢
      by_cases already : session ∈ v.live.state.settledSessions
      · obtain ⟨bound, stands⟩ := standing already
        exact ⟨bound, settle_stands inOrder settling.later stands settling.settles⟩
      · -- Only the session that settles joins the ledger.
        have joined := mem_settledSessions.mp member
        obtain rfl : v.day = session := by
          obtain ⟨opened, fills, opens, filled, left⟩ := settle_eq_ok settling.settles
          obtain ⟨profileEq, today, -, -, -⟩ := openDay_spec opens
          have kept : opened.LotsKept (v.day + 1) (pastOf (corporateHistory v.live.journal)) :=
            fun symbol => (openDay_lotsKept (inOrder.lots v.day settling.later) opens symbol).mono
              (Nat.le_succ _) fun _ => id
          have fillsOrder := fillDay_inOrder inOrder settling.later
            ⟨profileEq.trans inOrder.profile_eq, today, rfl, kept⟩ filled
          obtain ⟨mode, here, inLedger⟩ := joined
          rw [left] at here
          obtain ⟨before', following, -, sessions⟩ := fillsOrder.ledger mode here
          rcases (sessions session).mp inLedger with old | ⟨equal, -⟩
          · exact absurd (mem_settledSessions.mpr ⟨before', following, old⟩) already
          · exact equal.symm
        exact ⟨before, settle_joins inOrder settling.later settling.opens (lasts rfl) joined
          settling.settles key⟩)
    (fun live decided decides start => by
      obtain ⟨inOrder, standing⟩ := start
      refine ⟨decide_orderly inOrder decides, fun member => ?_⟩
      obtain ⟨orders, -, rfl⟩ := decideSession_eq_ok decides
      obtain ⟨bound, stands⟩ := standing member
      exact ⟨bound, decide_stands inOrder bound.ne' stands decides⟩)
    lasting ⟨started, fun member => absurd member notYet⟩
  exact (whole.2 settled).2

theorem stands_along (schedule : StrategySchedule) (events : List BookEvent)
    (orderly : book.Orderly profile)
    (untouched : ∀ event ∈ events, event.touches session key = false)
    (stands : Stands profile (readRecords book.lines) session key book.state book.journal) :
    Uncorrected session key
      (correctionsOf (events.foldl (Book.step profile schedule) book).journal) := by
  induction events generalizing book with
  | nil => exact stands.uncorrected
  | cons event events ih =>
    have here := untouched event List.mem_cons_self
    refine ih (step_orderly orderly event)
      (fun event' member => untouched event' (List.mem_cons_of_mem _ member)) ?_
    exact step_stands orderly here stands

/-- Once a session has settled from records that last, no later run corrects a
key of it while no event bears on that key. -/
theorem settled_session_uncorrected (profile : BrokerProfile) (schedule : StrategySchedule)
    (before more : List BookEvent) (input : RunInput) (session : Nat) (key : OrderKey)
    (joins : session ∉ (Book.after profile schedule before).state.settledSessions)
    (settled : session ∈
      (Book.after profile schedule (before ++ [.run input])).state.settledSessions)
    (lasting : ∀ v ∈ (Book.after profile schedule before).visits profile schedule (.run input),
      v.day = session → v.Lasts)
    (untouched : ∀ event ∈ more, event.touches session key = false) :
    ∀ row ∈ correctionsOf
        (Book.after profile schedule (before ++ [.run input] ++ more)).journal,
      ¬ (row.corrects = session ∧ row.key = key) := by
  have orderly := after_orderly profile schedule before
  have first : Book.after profile schedule (before ++ [.run input]) =
      (Book.after profile schedule before).step profile schedule (.run input) := by
    simp [Book.after]
  rw [first] at settled
  have stands := run_joins orderly joins settled lasting key
  rw [← first] at stands
  have whole := stands_along schedule more (after_orderly profile schedule (before ++ [.run input]))
    untouched stands
  rw [Book.after, List.foldl_append]
  exact whole

/-- The buy of `buyLot`, recorded as filled at its simulated price. -/
def filledLot (day : Nat) : FillLine :=
  { eventId := "fill_1", tradeDate := day, key := ⟨570, .buy, "600000.SH"⟩
    outcome := .filled ⟨100, 10, none, roundLot_pos, by norm_num, by simp⟩
    clock_lt := by decide, symbol_code := by decide +kernel
    buy_lot := by
      rintro fill said -
      cases said
      decide +kernel }

/-- A buy recorded as filled is settled once. -/
theorem filled_session_uncorrected :
    20240102 ∈ (Book.after {} smallSchedule
        [.append .enable, .run (smallRun smallData [buyLot "600000.SH" 20240102] 20240102),
          .append (.fill (filledLot 20240102)),
          .run (smallRun smallData [] 20240103)]).state.settledSessions ∧
      ∀ row ∈ correctionsOf (Book.after {} smallSchedule
        [.append .enable, .run (smallRun smallData [buyLot "600000.SH" 20240102] 20240102),
          .append (.fill (filledLot 20240102)), .run (smallRun smallData [] 20240103),
          .run (smallRun smallData [] 20240104)]).journal,
        ¬ (row.corrects = 20240102 ∧ row.key = ⟨570, .buy, "600000.SH"⟩) :=
  ⟨by decide +kernel,
    settled_session_uncorrected {} smallSchedule
      [.append .enable, .run (smallRun smallData [buyLot "600000.SH" 20240102] 20240102),
        .append (.fill (filledLot 20240102))]
      [.run (smallRun smallData [] 20240104)] (smallRun smallData [] 20240103) 20240102
      ⟨570, .buy, "600000.SH"⟩ (by decide +kernel) (by decide +kernel) (by decide +kernel)
      (by decide +kernel)⟩

def gapSessions : List Nat := [20240102, 20240104, 20240105, 20240108]

/-- The small market closed on 3 January. -/
def gapData : PaperData :=
  { market :=
      { tradeDates := gapSessions
        bars := fun day symbol =>
          if day ∈ gapSessions ∧ symbol = "600000.SH" then some flatBar else none
        distributions := fun _ _ => {}
        sorted := by decide
        bars_eq_none := fun _ absent _ => if_neg fun here => absent here.1 }
    sessions := 20231229 :: gapSessions, releaseEnd := 20240108
    executionPrice := fun _ _ => none, sorted := by decide }

/-- An order dated on a day without a session settles from the record of its own
date; the next session holds it against the record of the session it settled with. -/
theorem settled_session_corrected : ¬ ∀ (profile : BrokerProfile) (schedule : StrategySchedule)
    (before more : List BookEvent) (input : RunInput) (session : Nat) (key : OrderKey),
    session ∉ (Book.after profile schedule before).state.settledSessions →
    session ∈ (Book.after profile schedule (before ++ [.run input])).state.settledSessions →
    (∀ event ∈ more, event.touches session key = false) →
    ∀ row ∈ correctionsOf (Book.after profile schedule (before ++ [.run input] ++ more)).journal,
      ¬ (row.corrects = session ∧ row.key = key) := by
  intro claim
  have quiet := claim {} smallSchedule
    [.append .enable, .run (smallRun gapData [buyLot "600000.SH" 20240103] 20240102),
      .append (.fill (filledLot 20240103)),
      .run (smallRun gapData [buyLot "600000.SH" 20240103] 20240104),
      .append (.session "fill_2" 20240104 .simulated)]
    [.run (smallRun gapData [buyLot "600000.SH" 20240103] 20240108)]
    (smallRun gapData [buyLot "600000.SH" 20240103] 20240105) 20240104
    ⟨570, .buy, "600000.SH"⟩ (by decide +kernel) (by decide +kernel) (by decide +kernel)
  revert quiet
  decide +kernel

end AutoTrade
