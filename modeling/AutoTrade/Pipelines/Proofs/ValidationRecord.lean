import AutoTrade.Pipelines.Proofs.Ledger
import AutoTrade.Pipelines.ValidationRecord

/-!
# The validation record is contiguous

The ledger only refuses a step it already holds. What makes the record
contiguous is that its writers count: a session counts the steps it read and
appended, the host the steps the ledger holds when the session ends, and no two
of them are at work at once.
-/

namespace AutoTrade

open Json JsonLines JsonObject

theorem ValidationSteps.le_count_of_window {steps : ValidationSteps} {step : Nat}
    {bounds : Text × Text} (window : steps.window step = .ok bounds) :
    1 ≤ step ∧ step ≤ steps.count := by
  unfold ValidationSteps.window at window
  cases step with
  | zero => cases window
  | succ tested =>
    dsimp only at window
    cases found : steps.windows[tested]? with
    | none =>
      rw [found] at window
      cases window
    | some bounds' =>
      have inside := (List.getElem?_eq_some_iff.mp found).1
      unfold ValidationSteps.count
      omega

theorem testStepRecord_eq_ok {head record : JsonObject} {steps : ValidationSteps} {step : Nat}
    {reading : StepReading} {source : StepSource}
    (built : testStepRecord head steps step reading source = .ok record)
    (unnumbered : head.field "step" = none) :
    isType record "test_step" = true ∧ stepOf record = some step ∧ step ≤ steps.count := by
  unfold testStepRecord at built
  obtain ⟨bounds, window, built⟩ := bind_eq_ok.mp built
  obtain ⟨horizon, -, built⟩ := bind_eq_ok.mp built
  split_ifs at built
  rw [← Except.ok.inj built]
  refine ⟨?_, ?_, (ValidationSteps.le_count_of_window window).2⟩
  · apply isType_iff.mpr
    rw [List.cons_append, field_cons_self]
  · unfold stepOf
    rw [List.cons_append, field_cons_of_ne (by decide), field_append, unnumbered, Option.none_or,
      field_cons_self]
    simp only [JsonNumber.toNat_ofNat]

/-- The test steps are 1..k, in the order of the file. -/
def Contiguous (rows : List JsonObject) : Prop :=
  (testRows rows).map stepOf = (List.range' 1 (testRows rows).length).map some

theorem testRows_append (rows : List JsonObject) (row : JsonObject) :
    testRows (rows ++ [row]) =
      testRows rows ++ if isType row "test_step" = true then [row] else [] := by
  unfold testRows
  rw [List.filter_append, List.filter_singleton]
  cases isType row "test_step" <;> rfl

variable {rows : List JsonObject}

theorem Contiguous.append (contiguous : Contiguous rows) {row : JsonObject}
    (typed : isType row "test_step" = true)
    (next : stepOf row = some ((testRows rows).length + 1)) : Contiguous (rows ++ [row]) := by
  unfold Contiguous at contiguous ⊢
  rw [testRows_append, if_pos typed, List.map_append, contiguous, List.length_append,
    List.length_singleton, List.range'_concat, List.map_append, List.map_singleton,
    List.map_singleton, next]
  congr 3
  omega

theorem testStepRecords_of_contiguous (contiguous : Contiguous rows) :
    testStepRecords rows = .ok (testRows rows) := by
  have numbered : ∀ (l : List JsonObject) (first : Nat),
      l.map stepOf = (List.range' first l.length).map some →
      (l.mapM fun row => (stepOf row).map fun step => (step, row)) =
        some ((List.range' first l.length).zip l) := by
    intro l
    induction l with
    | nil => intros; rfl
    | cons row l ih =>
      intro first same
      rw [List.length_cons, List.range'_succ, List.map_cons, List.map_cons] at same
      obtain ⟨here, rest⟩ := List.cons.inj same
      rw [List.mapM_cons, here, ih (first + 1) rest, List.length_cons, List.range'_succ]
      rfl
  unfold testStepRecords
  rw [numbered (testRows rows) 1 contiguous]
  generalize testRows rows = tests
  have firsts : ((List.range' 1 tests.length).zip tests).map Prod.fst =
      List.range' 1 tests.length := List.map_fst_zip (by rw [List.length_range'])
  have seconds : ((List.range' 1 tests.length).zip tests).map Prod.snd = tests :=
    List.map_snd_zip (by rw [List.length_range'])
  have lengths : ((List.range' 1 tests.length).zip tests).length = tests.length := by
    rw [List.length_zip, List.length_range', Nat.min_self]
  have ordered : ((List.range' 1 tests.length).zip tests).Pairwise fun a b => a.1 ≤ b.1 := by
    rw [← List.pairwise_map (f := Prod.fst) (R := (· ≤ ·)), firsts]
    exact List.pairwise_le_range'
  dsimp only
  rw [ordered.insertionSort_eq, firsts, seconds, lengths, if_pos rfl]

namespace ResearchSession

structure Recorded (steps : ValidationSteps) (w : World) : Prop where
  written : w.ledger = dumpLines w.rows
  contiguous : Contiguous w.rows
  within : (testRows w.rows).length ≤ steps.count
  /-- A session that registers leaves no step open. -/
  complete : ∀ row ∈ w.rows, isType row "research_session" = true → row.holds "registered" = true →
    (testRows w.rows).length = steps.count

/-- Where the session in flight stands in the record. -/
def Phase.Kept (steps : ValidationSteps) (tested tests : Nat) : Phase → Prop
  | .testing finished => tests = tested ∧ (finished = true → tested = steps.count)
  | .completing next => next = tested + 1
  | .closing registers => registers = true → tested = steps.count
  | .closed => True

structure Kept (steps : ValidationSteps) (w : World) : Prop extends Recorded steps w where
  live : ∀ session, w.live = some session →
    session.phase.Kept steps (testRows w.rows).length session.tests.length

section

variable {steps : ValidationSteps} {w w' : World}

theorem Recorded.read (recorded : Recorded steps w) {records : List JsonObject}
    (loads : readVersionedJsonl w.ledger = .ok records) : records = w.rows := by
  unfold readVersionedJsonl at loads
  rw [recorded.written] at loads
  cases read : loadLines plainReader (dumpLines w.rows) with
  | none =>
    rw [read] at loads
    cases loads
  | some rows =>
    have whole : ∀ row ∈ w.rows, breaksLine row = false := by
      intro row member
      by_contra broken
      rw [Bool.not_eq_false] at broken
      have lost : loadLines plainReader (dumpLines w.rows ++ []) = none :=
        loadLines_broken member broken []
      rw [List.append_nil, read] at lost
      cases lost
    obtain rfl : w.rows = rows := Option.some.inj ((loadLines_dumpLines whole).symm.trans read)
    rw [read] at loads
    dsimp only at loads
    split_ifs at loads
    exact (Except.ok.inj loads).symm

theorem Recorded.testStepRecords (recorded : Recorded steps w) {records : List JsonObject}
    (loads : readVersionedJsonl w.ledger = .ok records) :
    testStepRecords records = .ok (testRows w.rows) := by
  rw [recorded.read loads]
  exact testStepRecords_of_contiguous recorded.contiguous

variable {tests : List JsonObject}

theorem Recorded.testsBefore (recorded : Recorded steps w)
    (begun : testsBefore w.ledger = .ok tests) : tests = testRows w.rows := by
  unfold ResearchSession.testsBefore at begun
  obtain ⟨records, loads, begun⟩ := bind_eq_ok.mp begun
  obtain ⟨-, -, begun⟩ := bind_eq_ok.mp begun
  obtain ⟨-, -, begun⟩ := bind_eq_ok.mp begun
  obtain ⟨-, -, begun⟩ := bind_eq_ok.mp begun
  rw [recorded.testStepRecords loads] at begun
  exact (Except.ok.inj begun).symm

theorem Recorded.tested (recorded : Recorded steps w) {done : Nat} (read : w.tested = .ok done) :
    done = (testRows w.rows).length := by
  unfold World.tested at read
  obtain ⟨records, loads, read⟩ := bind_eq_ok.mp read
  rw [recorded.testStepRecords loads] at read
  exact (Except.ok.inj read).symm

variable {recordedAt : Token} {record : JsonObject}

theorem write_eq_ok (written : w.write record recordedAt = .ok w') :
    w' = { w with
      ledger := appendVersionedJsonl w.ledger record recordedAt.text,
      rows := w.rows ++ [stamped record recordedAt.text] } := by
  unfold World.write at written
  obtain ⟨ledger, appended, rfl⟩ := except_map_eq_ok.mp written
  rw [(appendLedger_eq_ok.mp appended).2]

theorem Recorded.write (recorded : Recorded steps w)
    (written : w.write record recordedAt = .ok w') (other : isType record "test_step" = false)
    (complete : isType record "research_session" = true → record.holds "registered" = true →
      (testRows w.rows).length = steps.count) :
    Recorded steps w' ∧ testRows w'.rows = testRows w.rows ∧ w'.live = w.live := by
  obtain rfl := write_eq_ok written
  have same : testRows (w.rows ++ [stamped record recordedAt.text]) = testRows w.rows := by
    rw [testRows_append, isType_stamped, other, if_neg (by decide), List.append_nil]
  have registered : (stamped record recordedAt.text).holds "registered" =
      record.holds "registered" := by
    unfold holds
    rw [field_stamped (by decide) (by decide)]
  refine ⟨⟨?_, ?_, ?_, fun row member typed holds => ?_⟩, same, rfl⟩
  · show w.ledger ++ dumpLine _ = dumpLines (w.rows ++ [_])
    rw [recorded.written]
    simp [dumpLines]
  · show Contiguous (w.rows ++ [_])
    unfold Contiguous
    rw [same]
    exact recorded.contiguous
  · show (testRows (w.rows ++ [_])).length ≤ _
    rw [same]
    exact recorded.within
  · show (testRows (w.rows ++ [_])).length = _
    rw [same]
    rcases List.mem_append.mp member with old | new
    · exact recorded.complete row old typed holds
    · rw [List.mem_singleton.mp new] at typed holds
      rw [isType_stamped] at typed
      exact complete typed (registered.symm.trans holds)

variable {reading : StepReading}

theorem Recorded.writeStep (recorded : Recorded steps w) {head record : JsonObject} {step : Nat}
    {source : StepSource} (unnumbered : head.field "step" = none)
    (next : step = (testRows w.rows).length + 1)
    (built : testStepRecord head steps step reading source = .ok record)
    (written : w.write record recordedAt = .ok w') :
    Recorded steps w' ∧ (testRows w'.rows).length = step ∧ w'.live = w.live := by
  obtain ⟨typed, numbered, within⟩ := testStepRecord_eq_ok built unnumbered
  obtain rfl := write_eq_ok written
  have typed' : isType (stamped record recordedAt.text) "test_step" = true := by
    rw [isType_stamped]
    exact typed
  have numbered' : stepOf (stamped record recordedAt.text) =
      some ((testRows w.rows).length + 1) := by
    unfold stepOf
    rw [field_stamped (by decide) (by decide), ← next]
    exact numbered
  have longer : (testRows (w.rows ++ [stamped record recordedAt.text])).length = step := by
    rw [testRows_append, if_pos typed', List.length_append, List.length_singleton, next]
  refine ⟨⟨?_, ?_, ?_, fun row member session registered => ?_⟩, longer, rfl⟩
  · show w.ledger ++ dumpLine _ = dumpLines (w.rows ++ [_])
    rw [recorded.written]
    simp [dumpLines]
  · exact recorded.contiguous.append typed' numbered'
  · exact longer.trans_le within
  · rcases List.mem_append.mp member with old | new
    · -- the record was complete: there is no next step
      have full := recorded.complete row old session registered
      omega
    · rw [List.mem_singleton.mp new] at session
      exact absurd (isType_inj session typed') (by decide)

variable {experimentId : Token}

theorem ledgerHead_unnumbered (experimentId runId : Token) :
    (ledgerHead experimentId runId).field "step" = none := by
  simp [ledgerHead, field_cons, field_nil]

variable {session : Session}

theorem Kept.test (kept : Kept steps w)
    (counted : session.tests.length = (testRows w.rows).length)
    (tested : w.test experimentId steps session reading recordedAt = .ok w') :
    Kept steps w' := by
  unfold World.test at tested
  dsimp only at tested
  split_ifs at tested with spent
  · cases tested
  · obtain ⟨record, built, tested⟩ := bind_eq_ok.mp tested
    obtain ⟨written, wrote, same⟩ := bind_eq_ok.mp tested
    obtain rfl := Except.ok.inj same
    obtain ⟨recorded, longer, -⟩ := kept.toRecorded.writeStep
      (ledgerHead_unnumbered experimentId session.runId) (by rw [counted]) built wrote
    refine ⟨⟨recorded.written, recorded.contiguous, recorded.within, recorded.complete⟩,
      fun live inFlight => ?_⟩
    rw [← Option.some.inj inFlight]
    show (session.tests ++ [record]).length = _ ∧ _
    rw [List.length_append, List.length_singleton, longer]
    exact ⟨rfl, fun last => by simpa using last⟩

theorem Kept.completeStep (kept : Kept steps w) {next : Nat}
    (due : next = (testRows w.rows).length + 1)
    (completed : w.completeStep experimentId steps session next reading recordedAt = .ok w') :
    Kept steps w' := by
  unfold World.completeStep at completed
  obtain ⟨record, built, completed⟩ := bind_eq_ok.mp completed
  obtain ⟨written, wrote, same⟩ := bind_eq_ok.mp completed
  obtain rfl := Except.ok.inj same
  obtain ⟨recorded, longer, -⟩ := kept.toRecorded.writeStep
    (ledgerHead_unnumbered experimentId session.runId) due built wrote
  refine ⟨⟨recorded.written, recorded.contiguous, recorded.within, recorded.complete⟩,
    fun live inFlight => ?_⟩
  rw [← Option.some.inj inFlight]
  show next + 1 = _
  rw [longer]

theorem Recorded.finish (recorded : Recorded steps w) {finished : Bool} {outcome : Outcome}
    {phase : Phase} (last : finished = true → (testRows w.rows).length = steps.count)
    (ended : w.finish finished outcome = .ok (some phase)) (tests : Nat) :
    phase.Kept steps (testRows w.rows).length tests := by
  cases outcome with
  | completed =>
    obtain ⟨done, -, ended⟩ := bind_eq_ok.mp ended
    have leaves := Except.ok.inj ended
    split_ifs at leaves with all
    rw [← Option.some.inj leaves]
    exact fun _ => last all
  | deadline registrable =>
    obtain ⟨done, read, ended⟩ := bind_eq_ok.mp ended
    have leaves := Except.ok.inj ended
    split_ifs at leaves
    · rw [← Option.some.inj leaves]
      intro absurd
      cases absurd
    · rw [← Option.some.inj leaves, recorded.tested read]
      rfl
  | environmentBlocked lastAttempt =>
    obtain ⟨done, -, ended⟩ := bind_eq_ok.mp ended
    have leaves := Except.ok.inj ended
    split_ifs at leaves
    rw [← Option.some.inj leaves]
    intro absurd
    cases absurd

theorem Kept.idle (kept : Kept steps w) : Kept steps { w with live := none } where
  written := kept.written
  contiguous := kept.contiguous
  within := kept.within
  complete := kept.complete
  live session absurd := by cases absurd

theorem Kept.enter (kept : Kept steps w) {session : Session}
    (stands : session.phase.Kept steps (testRows w.rows).length session.tests.length) :
    Kept steps { w with live := some session } where
  written := kept.written
  contiguous := kept.contiguous
  within := kept.within
  complete := kept.complete
  live session' same := by
    rw [← Option.some.inj same]
    exact stands

theorem registers_eq_some {phase : Phase} {tested tests : Nat} {registers : Bool}
    (stands : phase.Kept steps tested tests) (within : tested ≤ steps.count)
    (due : phase.registers steps = some registers) (registered : registers = true) :
    tested = steps.count := by
  cases phase with
  | testing finished => cases due
  | closed => cases due
  | closing registers' =>
    obtain rfl : registers' = registers := Option.some.inj due
    exact stands registered
  | completing next =>
    unfold Phase.registers at due
    dsimp only at due
    split_ifs at due with past
    have next_ : next = tested + 1 := stands
    omega

theorem Kept.sessionStep (kept : Kept steps w) (live : w.live = some session) {event : Event}
    (stepped : w.sessionStep experimentId steps session event = some w') :
    Kept steps w' := by
  have stands := kept.live session live
  unfold World.sessionStep at stepped
  split at stepped
  · -- a test
    split at stepped
    · next phase =>
      rw [phase] at stands
      exact kept.test stands.1 (toOption_eq_some.mp stepped)
    · cases stepped
  · -- the end of the conversation
    split at stepped
    · next finished phase =>
      rw [phase] at stands
      obtain ⟨leaves, ended, rfl⟩ := Option.map_eq_some_iff.mp stepped
      cases leaves with
      | none => exact kept.idle
      | some phase' =>
        exact kept.enter (kept.toRecorded.finish stands.2 (toOption_eq_some.mp ended) _)
    · cases stepped
  · -- a step the host completes
    split at stepped
    · next phase =>
      rw [phase] at stands
      exact kept.completeStep stands (toOption_eq_some.mp stepped)
    · cases stepped
  · -- the session's record
    next record recordedAt =>
    split_ifs at stepped with due
    obtain ⟨written, wrote, rfl⟩ := Option.map_eq_some_iff.mp stepped
    have other : isType record "test_step" = false := by
      rw [Bool.eq_false_iff]
      exact fun step => absurd (isType_inj due.1 step) (by decide)
    obtain ⟨recorded, -, -⟩ := kept.toRecorded.write (toOption_eq_some.mp wrote) other
      fun _ registered => registers_eq_some stands kept.within due.2 registered
    refine ⟨⟨recorded.written, recorded.contiguous, recorded.within, recorded.complete⟩,
      fun live' inFlight => ?_⟩
    rw [← Option.some.inj inFlight]
    trivial
  · rw [← Option.some.inj stepped]
    exact kept.idle
  · cases stepped

theorem Kept.begin (kept : Kept steps w) {runId : Token}
    (begun : ResearchSession.testsBefore w.ledger = .ok tests) :
    Kept steps { w with live := some { runId, tests } } := by
  apply kept.enter
  refine ⟨?_, fun absurd => by cases absurd⟩
  rw [kept.toRecorded.testsBefore begun]

theorem Kept.append (kept : Kept steps w)
    (typed : isType record "attempt_failed" = true ∨ isType record "forward" = true)
    (written : w.write record recordedAt = .ok w') : Kept steps w' := by
  have neither : ∀ recordType, recordType ≠ "attempt_failed" → recordType ≠ "forward" →
      isType record recordType = false := by
    intro recordType notFailed notForward
    rw [Bool.eq_false_iff]
    intro other
    rcases typed with failed | forward
    · exact notFailed (isType_inj other failed)
    · exact notForward (isType_inj other forward)
  obtain ⟨recorded, same, live⟩ := kept.toRecorded.write written
    (neither _ (by decide) (by decide)) fun session => by
      rw [neither _ (by decide) (by decide)] at session
      cases session
  refine ⟨recorded, fun session inFlight => ?_⟩
  rw [same]
  exact kept.live session (live.symm.trans inFlight)

theorem Kept.step (kept : Kept steps w) (event : Event) :
    Kept steps (w.step experimentId steps event) := by
  have inSession : Kept steps ((w.live.bind fun session =>
      w.sessionStep experimentId steps session event).getD w) := by
    cases stepped : w.live.bind fun session => w.sessionStep experimentId steps session event with
    | none => exact kept
    | some w' =>
      obtain ⟨session, live, done⟩ := Option.bind_eq_some_iff.mp stepped
      exact kept.sessionStep live done
  cases event with
  | begin runId =>
    unfold World.step
    dsimp only
    split
    · next begun => exact kept.begin begun
    · exact kept
  | append record recordedAt =>
    unfold World.step
    dsimp only
    split_ifs with typed
    · cases written : w.write record recordedAt with
      | error e => exact kept
      | ok w' => exact kept.append typed written
    · exact kept
  | test reading recordedAt => exact inSession
  | finish outcome => exact inSession
  | completeStep reading recordedAt => exact inSession
  | record record recordedAt => exact inSession
  | stop => exact inSession

theorem write_grows (written : w.write record recordedAt = .ok w') : w.rows <+: w'.rows := by
  rw [write_eq_ok written]
  exact List.prefix_append _ _

theorem sessionStep_grows {event : Event}
    (stepped : w.sessionStep experimentId steps session event = some w') :
    w.rows <+: w'.rows := by
  unfold World.sessionStep at stepped
  split at stepped
  · split at stepped
    · have tested := toOption_eq_some.mp stepped
      unfold World.test at tested
      dsimp only at tested
      split_ifs at tested
      · cases tested
      · obtain ⟨record, -, tested⟩ := bind_eq_ok.mp tested
        obtain ⟨written, wrote, same⟩ := bind_eq_ok.mp tested
        rw [← Except.ok.inj same]
        have grows := write_grows wrote
        exact grows
    · cases stepped
  · split at stepped
    · obtain ⟨leaves, -, rfl⟩ := Option.map_eq_some_iff.mp stepped
      exact List.prefix_rfl
    · cases stepped
  · split at stepped
    · have completed := toOption_eq_some.mp stepped
      unfold World.completeStep at completed
      obtain ⟨record, -, completed⟩ := bind_eq_ok.mp completed
      obtain ⟨written, wrote, same⟩ := bind_eq_ok.mp completed
      rw [← Except.ok.inj same]
      have grows := write_grows wrote
      exact grows
    · cases stepped
  · split_ifs at stepped
    obtain ⟨written, wrote, rfl⟩ := Option.map_eq_some_iff.mp stepped
    have grows := write_grows (toOption_eq_some.mp wrote)
    exact grows
  · exact Option.some.inj stepped ▸ List.prefix_rfl
  · cases stepped

theorem step_grows (w : World) (event : Event) :
    w.rows <+: (w.step experimentId steps event).rows := by
  have inSession : w.rows <+: ((w.live.bind fun session =>
      w.sessionStep experimentId steps session event).getD w).rows := by
    cases stepped : w.live.bind fun session => w.sessionStep experimentId steps session event with
    | none => exact List.prefix_rfl
    | some w' =>
      obtain ⟨session, -, done⟩ := Option.bind_eq_some_iff.mp stepped
      exact sessionStep_grows done
  cases event with
  | begin runId =>
    unfold World.step
    dsimp only
    split <;> exact List.prefix_rfl
  | append record recordedAt =>
    unfold World.step
    dsimp only
    split_ifs
    · cases written : w.write record recordedAt with
      | error e => exact List.prefix_rfl
      | ok w' => exact write_grows written
    · exact List.prefix_rfl
  | test reading recordedAt => exact inSession
  | finish outcome => exact inSession
  | completeStep reading recordedAt => exact inSession
  | record record recordedAt => exact inSession
  | stop => exact inSession

theorem run_grows (w : World) (events : List Event) :
    w.rows <+: (w.run experimentId steps events).rows := by
  induction events generalizing w with
  | nil => exact List.prefix_rfl
  | cons event events ih => exact (step_grows w event).trans (ih _)

theorem Kept.run (kept : Kept steps w) (events : List Event) :
    Kept steps (w.run experimentId steps events) := by
  induction events generalizing w with
  | nil => exact kept
  | cons event events ih => exact ih (kept.step event)

theorem kept_start (steps : ValidationSteps) : Kept steps {} where
  written := rfl
  contiguous := rfl
  within := Nat.zero_le _
  complete row absurd := by cases absurd
  live session absurd := by cases absurd

end

/-- The record a ledger reads back as its steps 1..k. -/
structure Durable (steps : ValidationSteps) (w : World) : Prop extends Recorded steps w where
  /-- Whoever reads the ledger finds its test steps, in the order they were appended. -/
  read : ∀ records, readVersionedJsonl w.ledger = .ok records →
    records = w.rows ∧ testStepRecords records = .ok (testRows w.rows)

/-- The validation record of every run is contiguous, and grows at its end. -/
theorem validation_record_contiguous (experimentId : Token) (steps : ValidationSteps)
    (events later : List Event) :
    Durable steps (World.run experimentId steps {} events) ∧
      (World.run experimentId steps {} events).rows <+:
        (World.run experimentId steps {} (events ++ later)).rows ∧
      testRows (World.run experimentId steps {} events).rows <+:
        testRows (World.run experimentId steps {} (events ++ later)).rows := by
  have kept : Kept steps (World.run experimentId steps {} events) := (kept_start steps).run events
  have grows : (World.run experimentId steps {} events).rows <+:
      (World.run experimentId steps {} (events ++ later)).rows := by
    unfold World.run
    rw [List.foldl_append]
    exact run_grows _ later
  refine ⟨⟨kept.toRecorded, fun records loads => ?_⟩, grows, grows.filter _⟩
  exact ⟨kept.toRecorded.read loads, kept.toRecorded.testStepRecords loads⟩

end ResearchSession

end AutoTrade
