import AutoTrade.Paper.Proofs.Verdict

/-!
# The ledger is journaled

Every run of a book keeps its execution journals and its fill ledger to each
other (`Live.Journaled`): a settled session's rows come to its entries, and an
entry moves only where a correction row says so. The verdict's fills then agree
with the ledger wherever every row is corrected with its session.
-/

namespace AutoTrade

open DailyBroker

theorem nothing_priced : nothing.Priced :=
  ⟨fun _ => rfl, fun shares => absurd rfl shares⟩

theorem outcome_priced {executions : List Execution} (sound : ∀ e ∈ executions, e.Sound) :
    (outcome executions).Priced := by
  constructor
  · intro none
    have empty := filter_isFilled_eq_nil sound none
    simp [outcome, empty]
  · intro shares
    have divides : ((outcome executions).quantity : ℚ) ≠ 0 := by exact_mod_cast shares
    exact ⟨_, if_pos shares, div_mul_cancel₀ _ divides⟩

variable {key : OrderKey} {simulated : List Simulated} {booked : List (OrderKey × ExecutionRow)}

theorem ledgerEntry_priced (sound : ∀ x ∈ simulated, x.2.Sound)
    (executions : ∀ entry ∈ booked, entry.2.execution.Sound) :
    (ledgerEntry simulated booked key).Priced := by
  refine ⟨outcome_priced fun e member => ?_, outcome_priced fun e member => ?_⟩
  · obtain ⟨x, inKey, rfl⟩ := List.mem_map.mp member
    exact sound x (List.mem_filter.mp inKey).1
  · obtain ⟨entry, inKey, rfl⟩ := List.mem_map.mp member
    exact executions entry (List.mem_filter.mp inKey).1

variable {profile : BrokerProfile} {session : Nat}

theorem targetOutcome_priced {record : Record} {entry : Entry} {target : Outcome}
    (priced : entry.Priced) (h : targetOutcome profile session key record entry = .ok target) :
    target.Priced := by
  unfold targetOutcome at h
  split at h
  · exact Except.ok.inj h ▸ priced.simulated
  · exact Except.ok.inj h ▸ nothing_priced
  · rename_i fill _
    dsimp only at h
    split at h
    · cases h
    obtain rfl := Except.ok.inj h
    have positive := fill.quantity_pos
    refine ⟨fun none => ?_, fun _ => ⟨fill.price, rfl, rfl⟩⟩
    have zero : fill.quantity = 0 := none
    omega

theorem changeOf_priced {position : Option Position} {applied target : Outcome} {change : Change}
    (priced : target.Priced) (h : changeOf position session key applied target = .ok change) :
    change.target.Priced := by
  unfold changeOf at h
  split at h
  · exact Except.ok.inj h ▸ priced
  · obtain ⟨unit, -, rfl⟩ := except_map_eq_ok.mp h
    exact ⟨priced.none, priced.some⟩

theorem orderKey_clock_lt (order : StrategyOrder) : (orderKey order).clock < 24 * 60 :=
  Nat.div_lt_of_lt_mul (by
    have bound := order.executeAt.micros_lt
    rwa [microsPerDay, Nat.mul_comm] at bound)

variable {k : Nat × OrderKey}

theorem readRecords_readable (lines : List RecordLine) {r : Record}
    (h : (readRecords lines).fills.get? k = some r) : k.2.Readable := by
  refine ⟨readRecords_parse lines h, ?_⟩
  induction lines using List.reverseRecOn generalizing r with
  | nil => simp [readRecords, Records.empty] at h
  | append_singleton lines line ih =>
    rw [readRecords_append] at h
    cases line with
    | enable => exact ih h
    | session eventId day outcome => exact ih h
    | fill line =>
      simp only [Records.read, Dict.get?_set] at h
      split_ifs at h with same
      · exact same ▸ line.clock_lt
      · exact ih h

/-- Every key of the ledger is one the verdict reads. -/
def LedgerReadable (sessions : Dict Nat Ledger) : Prop :=
  ∀ session ledger, sessions.get? session = some ledger → ∀ key ∈ ledger.keys, key.Readable

theorem LedgerReadable.set {sessions : Dict Nat Ledger} (readable : LedgerReadable sessions)
    {session : Nat} {ledger : Ledger} (here : ∀ key ∈ ledger.keys, key.Readable) :
    LedgerReadable (sessions.set session ledger) := by
  intro other ledger' found
  rw [Dict.get?_set] at found
  split_ifs at found
  · exact Option.some.inj found ▸ here
  · exact readable other ledger' found

variable {sessions : Dict Nat Ledger}

theorem LedgerReadable.getD (readable : LedgerReadable sessions) (session : Nat) :
    ∀ key ∈ ((sessions.get? session).getD Dict.empty).keys, key.Readable := by
  cases found : sessions.get? session with
  | none => simp [Dict.keys]
  | some ledger => simpa using readable session ledger found

theorem entryIn_setReal_self (s : Correcting) (session : Nat) (key : OrderKey) (real : Outcome) :
    entryIn (s.setReal session key real) session key = { s.entry session key with real } := by
  simp [entryIn, Correcting.setReal]

/-- What a correction pass has kept of the ledger it started from. -/
structure Correcting.Keeps (sessions : Dict Nat Ledger) (s : Correcting) : Prop where
  frame : ∀ session key, (session, key) ∉ s.rows.map CorrectionRow.corrected →
    entryIn s.sessions session key = entryIn sessions session key
  priced : ∀ session key, (entryIn s.sessions session key).Priced
  holds : ∀ k, Holds sessions k ∨ k ∈ s.rows.map CorrectionRow.corrected → Holds s.sessions k
  readable : LedgerReadable s.sessions

theorem Holds.setReal {s : Correcting} (holds : Holds s.sessions k) (session : Nat)
    (key : OrderKey) (real : Outcome) : Holds (s.setReal session key real) k := by
  obtain ⟨ledger, here, member⟩ := holds.entry
  refine ⟨holds.readable, ?_⟩
  rw [Correcting.setReal, Dict.get?_set]
  split_ifs with same
  · subst same
    refine ⟨_, rfl, ?_⟩
    rw [here, Option.getD_some, Dict.mem_keys_set]
    exact .inr member
  · exact ⟨ledger, here, member⟩

variable {records : Records} {late : List Nat} {history : List (Nat × CorporateAction)}

theorem correctKey_keeps {day session : Nat} {s s' : Correcting} (readable : key.Readable)
    (start : s.Keeps sessions) (h : correctKey records late history day session s key = .ok s') :
    s'.Keeps sessions := by
  rcases correctKey_cases h with rfl | ⟨record, target, booked, -, targeted, -, made, rfl⟩
  · exact start
  obtain ⟨change, moved, left, changes, -, -, -, rfl⟩ := bookCorrection_eq_ok made
  have priced := changeOf_priced (targetOutcome_priced (start.priced session key) targeted) changes
  constructor
  · intro session' key' fresh
    rw [List.map_append, List.mem_append, not_or] at fresh
    refine (entryIn_setReal ?_).trans (start.frame session' key' fresh.1)
    rintro ⟨rfl, rfl⟩
    exact fresh.2 (by simp [CorrectionRow.corrected, correctionRow])
  · intro session' key'
    by_cases same : session = session' ∧ key = key'
    · obtain ⟨rfl, rfl⟩ := same
      rw [entryIn_setReal_self]
      exact ⟨(start.priced session key).simulated, priced⟩
    · rw [entryIn_setReal same]
      exact start.priced session' key'
  · intro k here
    rw [List.map_append, List.mem_append, ← or_assoc] at here
    rcases here with old | new
    · exact (start.holds k old).setReal session key _
    · obtain rfl : k = (session, key) := by
        simpa [CorrectionRow.corrected, correctionRow] using new
      refine ⟨readable, _, by rw [Correcting.setReal, Dict.get?_set_self], ?_⟩
      rw [Dict.mem_keys_set]
      exact .inl rfl
  · refine start.readable.set fun key' member => ?_
    rcases Dict.mem_keys_set.mp member with rfl | old
    · exact readable
    · exact start.readable.getD session key' old

variable {day : Nat} {b : DailyBroker}

theorem corrections_keep {mode : Mode} {corrected : Correcting}
    (recorded : ∀ k r, records.fills.get? k = some r → k.2.Readable)
    (priced : ∀ session key, (entryIn mode.sessions session key).Priced)
    (readable : LedgerReadable mode.sessions)
    (h : corrections records late history b mode day = .ok corrected) :
    corrected.Keeps mode.sessions := by
  refine foldlM_invariant ?_ h
    ⟨fun _ _ _ => rfl, priced, fun k here => here.resolve_right (by simp), readable⟩
  intro session _ s s' pass start
  refine foldlM_invariant (fun key member t t' step before => ?_) pass start
  refine correctKey_keeps ?_ before step
  rcases List.mem_append.mp member with inLedger | inRecords
  · exact start.readable.getD session key inLedger
  · obtain ⟨k, inFills, rfl⟩ := List.mem_map.mp (List.mem_filter.mp inRecords).1
    obtain ⟨r, found⟩ := Dict.mem_keys_iff.mp (List.mem_filter.mp inFills).1
    exact recorded k r found

/-- A session in progress files every execution under the key it was ordered under. -/
def Applying.Named (keys : List OrderKey) (s : Applying) : Prop :=
  ∀ entry ∈ s.booked, entry.1 ∈ keys ∧ entry.2.execution.orderKey = entry.1 ∧
    entry.2.execution.Sound

variable {keys : List OrderKey} {s : Applying}

theorem Applying.Named.append (h : s.Named keys) {broker : DailyBroker} {row : ExecutionRow}
    {settled : List OrderKey} (member : key ∈ keys) (named : row.execution.orderKey = key)
    (sound : row.execution.Sound) :
    Applying.Named keys ⟨broker, s.booked ++ [(key, row)], settled⟩ := by
  intro entry inBooked
  rcases List.mem_append.mp inBooked with old | new
  · exact h entry old
  · obtain rfl := List.mem_singleton.mp new
    exact ⟨member, named, sound⟩

variable {order : StrategyOrder}

theorem execute_orderKey {b b' : DailyBroker} {bar : Option Bar} {matchedAt : Instant}
    {rawPrice : Option ℚ} {e : Execution}
    (h : b.execute order bar matchedAt rawPrice = .ok (b', e)) : e.orderKey = orderKey order := by
  have frame := execute_frame h
  simp only [Execution.orderKey, orderKey, frame.executeAt_eq, frame.action_eq, frame.symbol_eq]

theorem recordFill_named {b b' : DailyBroker} {p : ℚ} {commission : Option ℚ} {e : Execution}
    (h : recordFill b order p commission = .ok (b', e)) :
    e.orderKey = orderKey order ∧ e.Sound := by
  obtain ⟨profile, booked, execution, -, executed, -, rfl, rfl⟩ := recordFill_eq_ok h
  have named := execute_orderKey executed
  have sound := execute_sound executed
  exact ⟨named, sound.quantity_pos, sound.unfilled⟩

theorem recordedRow_named {ordered : Int} {record : Record} {booked : DailyBroker × ExecutionRow}
    (h : recordedRow b order ordered record = .ok booked) :
    booked.2.execution.orderKey = orderKey order ∧ booked.2.execution.Sound := by
  unfold recordedRow at h
  split at h
  · dsimp only at h
    obtain ⟨⟨broker, e⟩, made, rfl⟩ := except_map_eq_ok.mp h
    have named := recordFill_named made
    exact ⟨named.1, named.2⟩
  · obtain rfl := Except.ok.inj h
    exact ⟨rfl, notTradedExecution_sound order ordered⟩

/-- What the simulator made of the due orders, each under its order's key. -/
def SimulatedNamed (simulated : List Simulated) : Prop :=
  ∀ x ∈ simulated, x.2.orderKey = x.key ∧ x.2.Sound

variable {data : PaperData} {due : List StrategyOrder}

theorem executeAll_named {b filled : DailyBroker}
    (h : executeAll data b due = .ok (filled, simulated)) :
    SimulatedNamed simulated := by
  refine foldlM_invariant (P := fun s : DailyBroker × List Simulated => SimulatedNamed s.2) ?_ h
    (by simp [SimulatedNamed])
  intro order _ s s' step before x member
  obtain ⟨⟨broker, e⟩, executed, rfl⟩ := except_map_eq_ok.mp step
  rcases List.mem_append.mp member with old | new
  · exact before x old
  · obtain rfl := List.mem_singleton.mp new
    exact ⟨execute_orderKey executed, execute_sound executed⟩

theorem firstOrder_key (simulated : List Simulated) (x : Simulated) :
    orderKey (firstOrder simulated x) = x.key := by
  unfold firstOrder
  split
  · rfl
  · rename_i first rest same
    have member : first ∈ ofKey simulated x.key := by simp [same]
    exact of_decide_eq_true (List.mem_filter.mp member).2

theorem applyOrder_named {s s' : Applying} {x : Simulated} (named : SimulatedNamed simulated)
    (member : x ∈ simulated) (inKeys : x.key ∈ keys) (start : s.Named keys)
    (h : applyOrder records late simulated s x = .ok s') : s'.Named keys := by
  rcases applyOrder_cases h with ⟨-, rfl⟩ | ⟨record, -, -, cases⟩
  · exact start
  rcases cases with ⟨-, -, p, broker, execution, -, made, rfl⟩ | ⟨-, -, rfl⟩ |
    ⟨-, broker, row, made, rfl⟩
  · have booked := recordFill_named made
    exact start.append inKeys booked.1 booked.2
  · exact start.append inKeys (named x member).1 (named x member).2
  · have booked := recordedRow_named made
    exact start.append inKeys (booked.1.trans (firstOrder_key simulated x)) booked.2

theorem offSheetOrder_key (day : Nat) (key : OrderKey) (fill : StatedFill)
    (h : key.clock < 24 * 60) : orderKey (offSheetOrder day key fill h) = key := by
  simp [orderKey, offSheetOrder]

theorem applyOffSheet_named {s s' : Applying} (inKeys : key ∈ keys) (start : s.Named keys)
    (h : applyOffSheet records day s key = .ok s') : s'.Named keys := by
  unfold applyOffSheet at h
  split at h
  · exact Except.ok.inj h ▸ start
  split at h
  · split_ifs at h with clock
    obtain ⟨a, made, rfl⟩ := except_map_eq_ok.mp h
    have booked := recordedRow_named made
    exact start.append inKeys (booked.1.trans (offSheetOrder_key ..)) booked.2
  · exact Except.ok.inj h ▸ start

theorem applyDay_named {applied : DailyBroker × List ExecutionRow × Ledger}
    (named : SimulatedNamed simulated) (h : applyDay records late b day simulated = .ok applied) :
    (∀ key ∈ sessionKeys records day simulated, key.parses = true) ∧
    ∃ s : Applying, s.Named (sessionKeys records day simulated) ∧
      applied.2 = (s.booked.map Prod.snd,
        sessionLedger (sessionKeys records day simulated) simulated s.booked) := by
  obtain ⟨parses, s, run, rfl⟩ := applyDay_eq_ok h
  refine ⟨parses, s, ?_, rfl⟩
  refine foldlM_invariant ?_ run (by simp [Applying.Named])
  intro clock _ t t' step start
  unfold applyClock at step
  obtain ⟨ordered, first, later⟩ := bind_eq_ok.mp step
  obtain ⟨traded, second, last⟩ := bind_eq_ok.mp later
  obtain ⟨rfl, -⟩ := checkCash_eq_ok last
  have afterOrders : ordered.Named (sessionKeys records day simulated) :=
    foldlM_invariant (fun x member _ _ step before => by
      have inSimulated := (List.mem_filter.mp member).1
      exact applyOrder_named named inSimulated
        (List.mem_append_left _ (List.mem_map_of_mem inSimulated)) before step) first start
  exact foldlM_invariant (fun key member _ _ step before =>
    applyOffSheet_named (List.mem_append_right _ (List.mem_filter.mp member).1) before step)
    second afterOrders

theorem netUnder_booked (named : s.Named keys) (day : Nat) (key : OrderKey) :
    netUnder (day, key) ((s.booked.map Prod.snd).map fun row => ⟨day, row.execution⟩) =
      netOf (realOf s.booked key) := by
  unfold netUnder rowsUnder realOf
  rw [List.map_map, List.filter_map, List.map_map]
  congr 2
  refine List.filter_congr fun entry member => ?_
  simp [JournalRow.filed, (named entry member).2.1]

theorem realOf_eq_nil (named : s.Named keys) (absent : key ∉ keys) : realOf s.booked key = [] := by
  refine List.map_eq_nil_iff.mpr (List.filter_eq_nil_iff.mpr fun entry member => ?_)
  have here := (named entry member).1
  simp only [decide_eq_true_eq]
  rintro rfl
  exact absent here

theorem entryIn_set_self :
    entryIn (sessions.set day (sessionLedger keys simulated booked)) day key =
      if key ∈ keys then ledgerEntry simulated booked key else emptyEntry := by
  simp only [entryIn, Dict.get?_set_self, Option.getD_some]
  split_ifs with member
  · rw [sessionLedger_get?_of_mem member, Option.getD_some]
  · cases found : (sessionLedger keys simulated booked).get? key with
    | none => rfl
    | some entry => exact absurd (sessionLedger_get? found).1 member

theorem entryIn_set_of_ne {day session : Nat} {ledger : Ledger} (other : day ≠ session)
    (key : OrderKey) :
    entryIn (sessions.set day ledger) session key = entryIn sessions session key := by
  simp only [entryIn, Dict.get?_set_of_ne _ _ other]

/-- A book whose journals and ledger are kept to each other. -/
structure Journaled (state : PaperState) (journal : List Emission) : Prop where
  ledger : LedgerJournaled state.ledger ((correctionsOf journal).map CorrectionRow.corrected)
    (journalRows journal)
  readable : LedgerReadable state.ledger
  filed : ∀ row ∈ journalRows journal, state.settledThrough.any (row.session ≤ ·) = true

theorem journalRows_append (journal journal' : List Emission) :
    journalRows (journal ++ journal') = journalRows journal ++ journalRows journal' :=
  List.filterMap_append

variable {live : Live}

theorem journalRows_closeDay (data : PaperData) (opened : DailyBroker) (fills : DayFills)
    (day : Nat) (none : live.state.emissions = []) :
    journalRows (closeDay data live opened fills day).checkpoint.reconcile.journal =
      journalRows live.journal ++ journalRows fills.emissions := by
  obtain ⟨row, journal⟩ := closeDay_journal data opened fills day none
  have actions : ∀ actions : List CorporateAction,
      journalRows (actions.map (.corporateAction day)) = [] := fun actions => by
    simp [journalRows]
  rw [journal, journalRows_append, journalRows_append, journalRows_append, actions]
  simp [journalRows]

theorem journalRows_executions (day : Nat) (rows : List ExecutionRow) :
    journalRows (rows.map (.execution day)) = rows.map fun row => ⟨day, row.execution⟩ := by
  simp [journalRows]

theorem mem_ledger {state : PaperState} (member : session ∈ state.ledger.keys) :
    ∃ mode ∈ state.realFills, session ∈ mode.sessions.keys := by
  unfold PaperState.ledger at member
  cases following : state.realFills with
  | none => simp [following, Dict.keys] at member
  | some mode => exact ⟨mode, rfl, by simpa [following] using member⟩

theorem netUnder_filed {rows : List JournalRow} (elsewhere : ∀ row ∈ rows, row.session ≠ k.1) :
    netUnder k rows = 0 := by
  rw [netUnder, rowsUnder_eq_nil fun row member same => elsewhere row member (congrArg Prod.fst same)]
  rfl

theorem fillRecorded_journaled {opened : DailyBroker} {mode : Mode} {fills : DayFills}
    (orderly : live.Orderly profile)
    (recorded : ∀ k r, records.fills.get? k = some r → k.2.Readable)
    (following : live.state.realFills = some mode)
    (later : live.state.settledThrough.all (· < day) = true)
    (start : Journaled live.state live.journal)
    (h : fillRecorded records late live.journal data opened mode day due = .ok fills) :
    ∃ mode', fills.realFills = some mode' ∧
      LedgerJournaled mode'.sessions
        ((correctionsOf live.journal ++ correctionsOf fills.emissions).map CorrectionRow.corrected)
        (journalRows live.journal ++ journalRows fills.emissions) ∧
      LedgerReadable mode'.sessions ∧ ∀ row ∈ journalRows fills.emissions, row.session = day := by
  obtain ⟨simulator, simulated, settled, executed, settles, rfl⟩ := fillRecorded_eq_ok h
  obtain ⟨corrected, applied, first, second, rfl⟩ := settleRecorded_eq_ok settles
  obtain ⟨broker, rows, ledger⟩ := applied
  have named := executeAll_named executed
  obtain ⟨parses, s, booked, applied⟩ := applyDay_named named second
  obtain ⟨rfl, rfl⟩ := Prod.mk.inj applied
  have ledger_eq : live.state.ledger = mode.sessions := by
    simp [PaperState.ledger, following]
  have journals := start.ledger
  have readable := start.readable
  rw [ledger_eq] at journals readable
  have keeps := corrections_keep recorded journals.priced readable first
  have past : ∀ session ∈ corrected.sessions.keys, session < day := fun session member =>
    session_lt (orderly.ledger mode (by simp [following]) session
      (((corrections_sessions first).1 session).mp member)) later
  have rows_eq : journalRows (simulated.map (fun x => Emission.simulatedExecution day x.2) ++
      corrected.rows.map .correction ++ (s.booked.map Prod.snd).map (.execution day)) =
      (s.booked.map Prod.snd).map fun row => ⟨day, row.execution⟩ := by
    rw [journalRows_append, journalRows_executions]
    simp [journalRows]
  have filed : ∀ row ∈ (s.booked.map Prod.snd).map fun row : ExecutionRow =>
      (⟨day, row.execution⟩ : JournalRow), row.session = day := by
    intro row member
    obtain ⟨row', -, rfl⟩ := List.mem_map.mp member
    rfl
  have before : ∀ row ∈ journalRows live.journal, row.session ≠ day := fun row member =>
    (session_lt (start.filed row member) later).ne
  dsimp only
  rw [rows_eq, correctionsOf_fills, List.map_append]
  refine ⟨_, rfl, ?_, ?_, filed⟩
  · constructor
    · intro session member key fresh
      rw [List.mem_append, not_or] at fresh
      rw [netUnder_append]
      by_cases today : day = session
      · subst today
        rw [netUnder_filed before, zero_add, netUnder_booked booked, entryIn_set_self]
        split_ifs with inKeys
        · rfl
        · rw [realOf_eq_nil booked inKeys]
          rfl
      · have old := (Dict.mem_keys_set.mp member).resolve_left (Ne.symm today)
        have elsewhere := netUnder_filed (k := (session, key)) fun row there => by
          rw [filed row there]
          exact today
        rw [entryIn_set_of_ne today, keeps.frame session key fresh.2, elsewhere, add_zero]
        exact journals.net session (((corrections_sessions first).1 session).mp old) key fresh.1
    · intro session key
      by_cases today : day = session
      · subst today
        rw [entryIn_set_self]
        split_ifs
        · exact ledgerEntry_priced (fun x member => (named x member).2)
            fun entry member => (booked entry member).2.2
        · exact ⟨nothing_priced, nothing_priced⟩
      · rw [entryIn_set_of_ne today]
        exact keeps.priced session key
    · intro k member
      have old := keeps.holds k ((List.mem_append.mp member).imp_left (journals.holds k))
      obtain ⟨ledger, here, inLedger⟩ := old.entry
      have other : day ≠ k.1 := (past k.1 (Dict.mem_keys_iff.mpr ⟨ledger, here⟩)).ne'
      exact ⟨old.readable, ledger, by rw [Dict.get?_set_of_ne _ _ other, here], inLedger⟩
    · intro row member filled
      rcases List.mem_append.mp member with old | new
      · exact journals.shares row old filled
      · obtain ⟨row', there, rfl⟩ := List.mem_map.mp new
        obtain ⟨entry, inBooked, rfl⟩ := List.mem_map.mp there
        exact (booked entry inBooked).2.2.quantity_pos filled
  · refine keeps.readable.set fun key member => ?_
    obtain ⟨entry, found⟩ := Dict.mem_keys_iff.mp member
    have inKeys := (sessionLedger_get? found).1
    refine ⟨parses key inKeys, ?_⟩
    rcases List.mem_append.mp inKeys with ordered | offSheet
    · obtain ⟨x, -, rfl⟩ := List.mem_map.mp ordered
      exact orderKey_clock_lt x.1
    · obtain ⟨⟨r, there⟩, -⟩ := mem_offSheetKeys.mp offSheet
      exact (recorded _ r there).clock_lt

theorem fillSimulated_journaled {opened : DailyBroker} {fills : DayFills}
    (orderly : live.Orderly profile) (later : live.state.settledThrough.all (· < day) = true)
    (start : Journaled live.state live.journal)
    (h : fillSimulated data opened live.state.realFills day due = .ok fills) :
    fills.realFills = live.state.realFills ∧
      LedgerJournaled live.state.ledger
        ((correctionsOf live.journal ++ correctionsOf fills.emissions).map CorrectionRow.corrected)
        (journalRows live.journal ++ journalRows fills.emissions) ∧
      ∀ row ∈ journalRows fills.emissions, row.session = day := by
  obtain ⟨filled, simulated, executed, rfl⟩ := fillSimulated_eq_ok h
  have named := executeAll_named executed
  have none : correctionsOf (simulated.map fun x =>
      Emission.execution day { execution := x.2 }) = [] := by simp [correctionsOf]
  have rows_eq : journalRows (simulated.map fun x => Emission.execution day { execution := x.2 }) =
      simulated.map fun x => ⟨day, x.2⟩ := by simp [journalRows]
  dsimp only
  rw [none, List.append_nil, rows_eq]
  have filed : ∀ row ∈ simulated.map fun x : Simulated => (⟨day, x.2⟩ : JournalRow),
      row.session = day := by
    intro row member
    obtain ⟨x, -, rfl⟩ := List.mem_map.mp member
    rfl
  refine ⟨rfl, ⟨?_, start.ledger.priced, start.ledger.holds, ?_⟩, filed⟩
  · intro session member key fresh
    obtain ⟨mode, following, inLedger⟩ := mem_ledger member
    have past := session_lt (orderly.ledger mode following session inLedger) later
    have elsewhere := netUnder_filed (k := (session, key)) fun row there => by
      rw [filed row there]
      exact past.ne'
    rw [netUnder_append, elsewhere, add_zero]
    exact start.ledger.net session member key fresh
  · intro row member isFilled
    rcases List.mem_append.mp member with old | new
    · exact start.ledger.shares row old isFilled
    · obtain ⟨x, inSimulated, rfl⟩ := List.mem_map.mp new
      exact (named x inSimulated).2.quantity_pos isFilled

theorem settle_journaled {live settled : Live} (orderly : live.Orderly profile)
    (recorded : ∀ k r, records.fills.get? k = some r → k.2.Readable)
    (later : live.state.settledThrough.all (· < day) = true)
    (start : Journaled live.state live.journal) (h : settle records data live day = .ok settled) :
    Journaled settled.state settled.journal := by
  obtain ⟨opened, fills, -, filled, rfl⟩ := settle_eq_ok h
  have corrections := correctionsOf_closeDay data opened fills day orderly.emissions_eq
  have rows := journalRows_closeDay data opened fills day orderly.emissions_eq
  have through : ∀ row ∈ journalRows live.journal ++ journalRows fills.emissions,
      (∀ row ∈ journalRows fills.emissions, row.session = day) → row.session ≤ day := by
    intro row member today
    rcases List.mem_append.mp member with old | new
    · exact (session_lt (start.filed row old) later).le
    · exact (today row new).le
  rcases fillDay_cases filled with ⟨mode, following, -, made⟩ | ⟨-, made⟩
  · obtain ⟨mode', left, ledger, readable, today⟩ :=
      fillRecorded_journaled orderly recorded following later start made
    have ledger_eq : (closeDay data live opened fills day).checkpoint.reconcile.state.ledger =
        mode'.sessions := by
      change (fills.realFills.map Mode.sessions).getD Dict.empty = _
      rw [left]
      rfl
    refine ⟨?_, ledger_eq ▸ readable, ?_⟩
    · rw [ledger_eq, corrections, rows]
      exact ledger
    · rw [rows]
      exact fun row member => decide_eq_true (through row member today)
  · obtain ⟨left, ledger, today⟩ := fillSimulated_journaled orderly later start made
    have ledger_eq : (closeDay data live opened fills day).checkpoint.reconcile.state.ledger =
        live.state.ledger := by
      change (fills.realFills.map Mode.sessions).getD Dict.empty = _
      rw [left]
      rfl
    refine ⟨?_, ledger_eq ▸ start.readable, ?_⟩
    · rw [ledger_eq, corrections, rows]
      exact ledger
    · rw [rows]
      exact fun row member => decide_eq_true (through row member today)

theorem Journaled.congr {state state' : PaperState} {journal journal' : List Emission}
    (start : Journaled state journal) (ledger : state'.ledger = state.ledger)
    (through : state'.settledThrough = state.settledThrough)
    (corrections : correctionsOf journal' = correctionsOf journal)
    (rows : journalRows journal' = journalRows journal) : Journaled state' journal' := by
  refine ⟨?_, ledger ▸ start.readable, ?_⟩
  · rw [ledger, corrections, rows]
    exact start.ledger
  · rw [rows, through]
    exact start.filed

variable {schedule : StrategySchedule}

theorem decide_journaled {input : RunInput} {live decided : Live} (orderly : live.Orderly profile)
    (start : Journaled live.state live.journal)
    (h : decideSession schedule input live = .ok decided) :
    Journaled decided.state decided.journal := by
  obtain ⟨orders, -, rfl⟩ := decideSession_eq_ok h
  have journal := recordDecision_journal input (schedule.at input.tradeDate) orders
    orderly.emissions_eq
  refine start.congr rfl rfl ?_ ?_
  · rw [journal]
    simp [correctionsOf]
  · rw [journal]
    simp [journalRows]

theorem adopt_ledger_eq (state : PaperState) (records : Records) :
    (adopt state records).ledger = state.ledger ∧
      (adopt state records).settledThrough = state.settledThrough := by
  unfold adopt
  split_ifs with asked
  · refine ⟨?_, rfl⟩
    simp [PaperState.ledger, Option.isNone_iff_eq_none.mp asked.2]
  · exact ⟨rfl, rfl⟩

theorem start_journaled {book : Book} (orderly : book.Orderly profile)
    (start : Journaled book.state book.journal) (broker : DailyBroker)
    (pending : List StrategyOrder) :
    Journaled (book.start broker pending).state (book.start broker pending).journal := by
  have journal : (book.start broker pending).journal = book.journal := by
    change book.journal ++ book.state.emissions = _
    rw [orderly.emissions_eq, List.append_nil]
  have adopted := adopt_ledger_eq { book.state with emissions := [] } (readRecords book.lines)
  rw [journal]
  exact start.congr adopted.1 adopted.2 rfl rfl

theorem step_journaled {book : Book} (orderly : book.Orderly profile)
    (start : Journaled book.state book.journal) (event : BookEvent) :
    Journaled (book.step profile schedule event).state
      (book.step profile schedule event).journal := by
  cases event with
  | append line => exact start
  | run input =>
    simp only [Book.step, runDay]
    split
    · exact start
    rename_i live restores
    obtain ⟨broker, pending, restored, -, rfl⟩ := restore_eq_ok restores
    refine (runFrom_invariant (V := fun _ => True) (P := fun live => live.Orderly profile ∧
      Journaled live.state live.journal) schedule _ input ?_ ?_ (fun _ _ => trivial)
      ⟨start_orderly orderly restored, start_journaled orderly start broker pending⟩).2
    · rintro v settled same _ _ settling ⟨inOrder, before⟩
      have recorded : ∀ k r, v.records.fills.get? k = some r → k.2.Readable := fun k r found =>
        readRecords_readable book.lines (same ▸ found)
      exact ⟨settle_orderly inOrder settling.later settling.settles,
        settle_journaled inOrder recorded settling.later before settling.settles⟩
    · rintro live decided decides ⟨inOrder, before⟩
      exact ⟨decide_orderly inOrder decides, decide_journaled inOrder before decides⟩

theorem new_journaled : Journaled Book.new.state Book.new.journal := by
  refine ⟨⟨?_, ?_, ?_, ?_⟩, ?_, ?_⟩
  · intro session member
    simp [Book.new, PaperState.new, PaperState.ledger, Dict.keys] at member
  · exact fun _ _ => ⟨nothing_priced, nothing_priced⟩
  · simp [Book.new, correctionsOf]
  · simp [Book.new, journalRows]
  · intro session ledger found
    simp [Book.new, PaperState.new, PaperState.ledger] at found
  · simp [Book.new, journalRows]

theorem after_journaled (profile : BrokerProfile) (schedule : StrategySchedule)
    (events : List BookEvent) : Journaled (Book.after profile schedule events).state
      (Book.after profile schedule events).journal := by
  induction events using List.reverseRecOn with
  | nil => exact new_journaled
  | append_singleton events event ih =>
    rw [Book.after, List.foldl_append]
    exact step_journaled (after_orderly profile schedule events) ih event

theorem LedgerJournaled.congr {corrected corrected' : List (Nat × OrderKey)}
    {rows rows' : List JournalRow} (journals : LedgerJournaled sessions corrected rows)
    (same : ∀ k, k ∈ corrected' ↔ k ∈ corrected) (perm : rows'.Perm rows) :
    LedgerJournaled sessions corrected' rows' := by
  refine ⟨?_, journals.priced, fun k member => journals.holds k ((same k).mp member),
    fun row member => journals.shares row (perm.mem_iff.mp member)⟩
  intro session settled key fresh
  rw [netUnder_perm perm]
  exact journals.net session settled key (fresh ∘ (same _).mpr)

theorem correctedRows_nil (rows : List JournalRow) (sessions : Dict Nat Ledger) :
    correctedRows rows [] sessions = .ok rows := by
  have kept : replaceRows [] Dict.empty rows = rows := by
    induction rows with
    | nil => rfl
    | cons row rows ih => simp [replaceRows, ih]
  exact congrArg Except.ok kept

theorem verdictRows_eq {events : List BookEvent}
    (corrected : CorrectedKeys (correctionsOf (Book.after profile schedule events).journal)) :
    verdictRows (Book.after profile schedule events).journal
        (Book.after profile schedule events).state.realFills corrected =
      correctedRows (executionRows (Book.after profile schedule events).journal) corrected.keys
        (Book.after profile schedule events).state.ledger := by
  unfold verdictRows
  split_ifs with none
  · have empty : corrected.keys = [] :=
      List.eq_nil_iff_forall_not_mem.mpr fun k => by simp [corrected.mem_iff, none]
    rw [empty, correctedRows_nil]
  · obtain ⟨row, member⟩ := List.exists_mem_of_ne_nil _ none
    obtain ⟨mode, following, -⟩ := (after_orderly profile schedule events).corrected row member
    rw [Option.mem_def.mp following, PaperState.ledger, Option.mem_def.mp following]
    rfl

/-- Where no row of the journals is corrected apart from the session that settled
it, and only there, the verdict's fills agree with the ledger, whatever was
recorded and corrected before. -/
theorem verdict_agrees_iff (profile : BrokerProfile) (schedule : StrategySchedule)
    (events : List BookEvent)
    (corrected : CorrectedKeys (correctionsOf (Book.after profile schedule events).journal)) :
    ∃ rows, verdictRows (Book.after profile schedule events).journal
        (Book.after profile schedule events).state.realFills corrected = .ok rows ∧
      (AgreesWithLedger (Book.after profile schedule events).state.ledger corrected.keys
          (executionRows (Book.after profile schedule events).journal) rows ↔
        ∀ row ∈ executionRows (Book.after profile schedule events).journal,
          row.correctedAlike corrected.keys) := by
  have journals := (after_journaled profile schedule events).ledger.congr corrected.mem_iff
    (List.perm_insertionSort (fun row row' => row.session ≤ row'.session) _)
  obtain ⟨rows, made, -⟩ := correctedRows_ok journals
  exact ⟨rows, (verdictRows_eq corrected).trans made, agrees_iff journals made⟩

/-- A buy dated on a day without a session, settled as filled by the next session,
whose own record then says that nothing of it traded. -/
def gapEvents : List BookEvent :=
  [.append .enable, .run (smallRun gapData [buyLot "600000.SH" 20240103] 20240102),
    .append (.fill (filledLot 20240103)),
    .run (smallRun gapData [buyLot "600000.SH" 20240103] 20240104),
    .run (smallRun gapData [buyLot "600000.SH" 20240103] 20240105),
    .append (.session "fill_2" 20240104 .notTraded),
    .run (smallRun gapData [buyLot "600000.SH" 20240103] 20240108)]

/-- The corrected fill stays in the verdict's executions: its row names the day
of its order, the correction the session that settled it. -/
theorem gap_fill_stays : ¬ ∀ (profile : BrokerProfile) (schedule : StrategySchedule)
    (events : List BookEvent)
    (corrected : CorrectedKeys (correctionsOf (Book.after profile schedule events).journal))
    (rows : List JournalRow),
    verdictRows (Book.after profile schedule events).journal
        (Book.after profile schedule events).state.realFills corrected = .ok rows →
      AgreesWithLedger (Book.after profile schedule events).state.ledger corrected.keys
        (executionRows (Book.after profile schedule events).journal) rows := by
  intro claim
  have left : ∃ rows ∈ (verdictRows (Book.after {} smallSchedule gapEvents).journal
      (Book.after {} smallSchedule gapEvents).state.realFills (.ofRows _)).toOption,
      20240104 ∈ (Book.after {} smallSchedule gapEvents).state.ledger.keys ∧
      netUnder (20240104, ⟨570, .buy, "600000.SH"⟩) rows ≠
        (entryIn (Book.after {} smallSchedule gapEvents).state.ledger 20240104
          ⟨570, .buy, "600000.SH"⟩).real.net := by decide +kernel
  obtain ⟨rows, made, settled, differs⟩ := left
  have agrees := claim {} smallSchedule gapEvents (.ofRows _) rows (toOption_eq_some.mp made)
  exact differs (agrees.net 20240104 settled _)

end AutoTrade
