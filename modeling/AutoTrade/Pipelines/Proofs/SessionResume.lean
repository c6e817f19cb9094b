import AutoTrade.Environment.Proofs.Trace
import AutoTrade.Pipelines.SessionResume

/-!
# A resumed session does not forget its spend

What is read back from a trace are the records that were written whole. While no
budgeted event is cut down, and the marker fits wherever one is due, the last
block that was emitted stands in the traces, or a marker does.
-/

namespace AutoTrade.SessionResume

open Json JsonLines JsonObject
open ExperimentRuns (failedResearchAttempts)

theorem traceEvents_dumpLine (fields : JsonObject) (rest : Text) :
    traceEvents (dumpLine fields ++ rest) = fields :: traceEvents rest := by
  unfold traceEvents dumpLine
  rw [List.append_assoc, List.singleton_append,
    List.splitOnP_append_cons_of_forall_mem (fun c => isTextBreak_eq_false) '\n' (by decide)]
  exact List.filterMap_cons_some (loadObject_strip_dumps fields)

theorem traceEvents_append (records : List JsonObject) (rest : Text) :
    traceEvents (dumpLines records ++ rest) = records ++ traceEvents rest := by
  induction records with
  | nil => rfl
  | cons record records ih =>
    show traceEvents ((dumpLine record ++ dumpLines records) ++ rest) = _
    rw [List.append_assoc, traceEvents_dumpLine, ih, List.cons_append]

theorem traceEvents_nil : traceEvents [] = [] := by decide

theorem traceEvents_dumpLines (records : List JsonObject) :
    traceEvents (dumpLines records) = records := by
  have read := traceEvents_append records []
  rw [traceEvents_nil, List.append_nil, List.append_nil] at read
  exact read

theorem traceEvents_tornLine (torn : JsonObject) (written : Nat) :
    traceEvents (tornLine torn written) = [] := by
  unfold tornLine
  dsimp only
  generalize cut : min written ((dumps (obj (sortFields torn))).length - 1) = n
  obtain ⟨body, opened⟩ := dumps_obj (sortFields torn)
  have short : n < (dumps (obj (sortFields torn))).length := by
    rw [opened, List.length_cons] at cut ⊢
    omega
  have whole := (List.take_append_drop n (dumps (obj (sortFields torn)))).symm
  have missing : (dumps (obj (sortFields torn))).drop n ≠ [] := by
    intro empty
    rw [List.drop_eq_nil_iff] at empty
    omega
  unfold traceEvents
  rw [List.splitOnP_eq_singleton fun c member => isTextBreak_eq_false (List.mem_of_mem_take member)]
  exact List.filterMap_cons_none (loadObject_strip_short whole missing)

variable {py : Builtins}

variable {record : JsonObject} {key : String}

theorem amountAt_of_field {amount : Amount} (held : record.field key = some (num amount.number)) :
    BudgetUsed.amountAt record key = .ok amount := by
  unfold BudgetUsed.amountAt
  rw [held]
  exact dif_pos amount.sign

variable {n : Nat}

theorem countAt_of_field (held : record.field key = some (num (.ofNat n))) :
    BudgetUsed.countAt py record key = .ok n := by
  have amount : BudgetUsed.amountAt record key = .ok ⟨.ofNat n, JsonNumber.isNegative_ofNat n⟩ :=
    amountAt_of_field held
  unfold BudgetUsed.countAt
  rw [amount]
  show Except.ok _ = _
  rw [if_pos (JsonNumber.isInt_ofNat n), JsonNumber.toNat_ofNat]

theorem fromRecord_toRecord (used : BudgetUsed) :
    BudgetUsed.fromRecord py (used.toRecord py) =
      .ok { used with
        inferenceSeconds := py.round 1 used.inferenceSeconds
        apiSpendUsd := py.round 4 used.apiSpendUsd } := by
  have seconds : BudgetUsed.amountAt (used.toRecord py) "inference_seconds" =
      .ok (py.round 1 used.inferenceSeconds) := by
    apply amountAt_of_field
    simp only [BudgetUsed.toRecord, field_cons_self]
  have spend : BudgetUsed.amountAt (used.toRecord py) "api_spend_usd" =
      .ok (py.round 4 used.apiSpendUsd) := by
    apply amountAt_of_field
    simp only [BudgetUsed.toRecord, field_cons_self, field_cons_of_ne, ne_eq, String.reduceEq,
      not_false_eq_true]
  have counts : ∀ entry ∈ [("llm_calls", used.llmCalls), ("main_calls", used.mainCalls),
      ("subagent_calls", used.subagentCalls), ("compact_calls", used.compactCalls),
      ("test_replays", used.testReplays), ("null_controls", used.nullControls)],
      BudgetUsed.countAt py (used.toRecord py) entry.1 = .ok entry.2 := by
    intro entry member
    apply countAt_of_field
    simp only [List.mem_cons, List.not_mem_nil, or_false] at member
    rcases member with rfl | rfl | rfl | rfl | rfl | rfl <;>
      simp only [BudgetUsed.toRecord, field_cons_self, field_cons_of_ne, ne_eq, String.reduceEq,
        not_false_eq_true]
  simp only [List.forall_mem_cons] at counts
  obtain ⟨llm, main, subagent, compact, test, null, -⟩ := counts
  unfold BudgetUsed.fromRecord
  rw [seconds, llm, main, subagent, compact, test, null, spend]
  rfl

theorem fromRecord_nil (py : Builtins) : BudgetUsed.fromRecord py [] = .ok {} := rfl

theorem amountAt_sortFields (record : JsonObject) (key : String) :
    BudgetUsed.amountAt (sortFields record) key = BudgetUsed.amountAt record key := by
  unfold BudgetUsed.amountAt
  rw [field_sortFields]
  cases record.field key with
  | none => rfl
  | some v => cases v <;> rfl

theorem fromRecord_sortFields (record : JsonObject) :
    BudgetUsed.fromRecord py (sortFields record) = BudgetUsed.fromRecord py record := by
  unfold BudgetUsed.fromRecord BudgetUsed.countAt
  simp only [amountAt_sortFields]

/-- The spend an event carries, or the one before it. -/
def spendAfter (block event : JsonObject) : JsonObject :=
  match event.field "budget_used" with
  | some (obj used) => used
  | _ => block

/-- The last spend the events carry. -/
def lastSpend (block : JsonObject) (events : List JsonObject) : JsonObject :=
  events.foldl spendAfter block

/-- Every spend the events carry is one `from_record` takes. -/
def Reads (py : Builtins) (events : List JsonObject) : Prop :=
  ∀ event ∈ events, ∀ block, event.field "budget_used" = some (obj block) →
    ∃ used, BudgetUsed.fromRecord py block = .ok used

theorem Reads.cons {event : JsonObject} {events : List JsonObject}
    (reads : Reads py (event :: events)) : Reads py [event] ∧ Reads py events := by
  constructor
  · intro other member
    exact reads other (List.mem_cons.mpr (.inl (List.mem_singleton.mp member)))
  · intro other member
    exact reads other (List.mem_cons_of_mem event member)

theorem Reads.append {events more : List JsonObject} (reads : Reads py events)
    (reads' : Reads py more) : Reads py (events ++ more) := by
  intro event member
  rcases List.mem_append.mp member with old | new
  · exact reads event old
  · exact reads' event new

variable {runId : Text} {reading : Reading} {block : JsonObject} {traces : TraceFiles}

theorem readEvent_of_limit {event : JsonObject} (limit : isEvent event .traceLimitReached = true) :
    readEvent py runId reading event = .error (.sizeCap runId) := by
  unfold readEvent
  exact if_pos limit

theorem readEvent_eq_ok (runId : Text) {event : JsonObject} (other : isEvent event .traceLimitReached = false)
    (reads : Reads py [event]) (start : BudgetUsed.fromRecord py block = .ok reading.budget) :
    ∃ read, readEvent py runId reading event = .ok read ∧
      BudgetUsed.fromRecord py (spendAfter block event) = .ok read.budget := by
  unfold readEvent spendAfter
  rw [if_neg (by rw [other]; decide)]
  cases held : event.field "budget_used" with
  | none => exact ⟨_, rfl, start⟩
  | some value =>
    cases value with
    | obj fields =>
      obtain ⟨used, taken⟩ := reads event (List.mem_singleton_self event) fields held
      dsimp only
      rw [taken]
      exact ⟨_, rfl, rfl⟩
    | _ => exact ⟨_, rfl, start⟩

theorem readEvents_eq_ok (runId : Text) (reading : Reading) {events : List JsonObject}
    (plain : events.any (fun event => isEvent event .traceLimitReached) = false)
    (reads : Reads py events) (start : BudgetUsed.fromRecord py block = .ok reading.budget) :
    ∃ read, events.foldlM (readEvent py runId) reading = .ok read ∧
      BudgetUsed.fromRecord py (lastSpend block events) = .ok read.budget := by
  induction events generalizing reading block with
  | nil => exact ⟨reading, rfl, start⟩
  | cons event events ih =>
    rw [List.any_cons, Bool.or_eq_false_iff] at plain
    obtain ⟨first, later⟩ := reads.cons
    obtain ⟨read, here, spent⟩ := readEvent_eq_ok runId plain.1 first start
    rw [List.foldlM_cons, here]
    exact ih _ plain.2 later spent

theorem readEvents_of_limit (runId : Text) (reading : Reading) {events : List JsonObject}
    (limit : events.any (fun event => isEvent event .traceLimitReached) = true)
    (reads : Reads py events) (start : BudgetUsed.fromRecord py block = .ok reading.budget) :
    events.foldlM (readEvent py runId) reading = .error (.sizeCap runId) := by
  induction events generalizing reading block with
  | nil => cases limit
  | cons event events ih =>
    rw [List.foldlM_cons]
    by_cases first : isEvent event .traceLimitReached = true
    · rw [readEvent_of_limit first]
      rfl
    · rw [Bool.not_eq_true] at first
      rw [List.any_cons, first, Bool.false_or] at limit
      obtain ⟨here, later⟩ := reads.cons
      obtain ⟨read, taken, spent⟩ := readEvent_eq_ok runId first here start
      rw [taken]
      exact ih _ limit later spent

theorem shownOr_str {render : Json → Text} {t default : Text} (filled : t ≠ []) :
    shownOr render (some (str t)) default = t := by
  have shown : truthy (str t) = true := decide_eq_true filled
  unfold shownOr
  rw [Option.map_some, Option.getD_some, shown]
  rfl

theorem readAttempt_eq_ok {attempt : JsonObject} {read : Reading}
    (named : attempt.field "run_id" = some (str runId)) (filled : runId ≠ [])
    (taken : (eventsOf traces runId).foldlM (readEvent py runId) { reading with runRef := [] } =
      .ok read) :
    ∃ next, readAttempt py traces reading attempt = .ok next ∧ next.budget = read.budget := by
  unfold readAttempt
  rw [named, shownOr_str filled]
  dsimp only
  rw [taken]
  refine ⟨_, rfl, ?_⟩
  split_ifs <;> rfl

theorem readAttempt_eq_error {attempt : JsonObject} {e : ResumeError}
    (named : attempt.field "run_id" = some (str runId)) (filled : runId ≠ [])
    (refused : (eventsOf traces runId).foldlM (readEvent py runId) { reading with runRef := [] } =
      .error e) :
    readAttempt py traces reading attempt = .error e := by
  unfold readAttempt
  rw [named, shownOr_str filled]
  dsimp only
  rw [refused]
  rfl

/-- The attempts are the failures of these runs, in order. -/
def FailuresOf (attempts : List JsonObject) (runIds : List Text) : Prop :=
  attempts.map (fun attempt => attempt.field "run_id") = runIds.map fun runId => some (str runId)

variable {attempts : List JsonObject}

theorem readAttempts_eq_ok (reading : Reading) {runIds : List Text}
    (failures : FailuresOf attempts runIds) (filled : ∀ runId ∈ runIds, runId ≠ [])
    (plain : ∀ runId ∈ runIds, marked traces runId = false)
    (reads : ∀ runId ∈ runIds, Reads py (eventsOf traces runId))
    (start : BudgetUsed.fromRecord py block = .ok reading.budget) :
    ∃ read, attempts.foldlM (readAttempt py traces) reading = .ok read ∧
      BudgetUsed.fromRecord py (lastSpend block (runIds.flatMap (eventsOf traces))) =
        .ok read.budget := by
  induction attempts generalizing runIds reading block with
  | nil =>
    cases runIds with
    | nil => exact ⟨reading, rfl, start⟩
    | cons runId runIds => cases failures
  | cons attempt attempts ih =>
    cases runIds with
    | nil => cases failures
    | cons runId runIds =>
      obtain ⟨named, others⟩ := List.cons.inj failures
      simp only [List.forall_mem_cons] at filled plain reads
      obtain ⟨read, taken, spent⟩ := readEvents_eq_ok runId { reading with runRef := [] }
        plain.1 reads.1 start
      obtain ⟨next, here, kept⟩ := readAttempt_eq_ok named filled.1 taken
      rw [← kept] at spent
      rw [List.foldlM_cons, here, List.flatMap_cons]
      unfold lastSpend
      rw [List.foldl_append]
      exact ih _ others filled.2 plain.2 reads.2 spent

theorem readAttempts_of_limit (reading : Reading) {runIds : List Text}
    (failures : FailuresOf attempts runIds) (filled : ∀ runId ∈ runIds, runId ≠ [])
    (limit : ∃ runId ∈ runIds, marked traces runId = true)
    (reads : ∀ runId ∈ runIds, Reads py (eventsOf traces runId))
    (start : BudgetUsed.fromRecord py block = .ok reading.budget) :
    ∃ runId ∈ runIds, attempts.foldlM (readAttempt py traces) reading =
      .error (.sizeCap runId) := by
  induction attempts generalizing runIds reading block with
  | nil =>
    cases runIds with
    | nil =>
      obtain ⟨runId, member, -⟩ := limit
      cases member
    | cons runId runIds => cases failures
  | cons attempt attempts ih =>
    cases runIds with
    | nil => cases failures
    | cons runId runIds =>
      obtain ⟨named, others⟩ := List.cons.inj failures
      simp only [List.forall_mem_cons] at filled reads
      rw [List.foldlM_cons]
      by_cases here : marked traces runId = true
      · have refused := readEvents_of_limit runId { reading with runRef := [] }
          here reads.1 start
        refine ⟨runId, List.mem_cons_self, ?_⟩
        rw [readAttempt_eq_error named filled.1 refused]
        rfl
      · rw [Bool.not_eq_true] at here
        obtain ⟨read, taken, spent⟩ := readEvents_eq_ok runId { reading with runRef := [] }
          here reads.1 start
        obtain ⟨next, read_, kept⟩ := readAttempt_eq_ok named filled.1 taken
        rw [← kept] at spent
        rw [read_]
        have later : ∃ other ∈ runIds, marked traces other = true := by
          obtain ⟨other, member, limit⟩ := limit
          rcases List.mem_cons.mp member with rfl | member
          · exact absurd limit (by rw [here]; decide)
          · exact ⟨other, member, limit⟩
        obtain ⟨other, member, refused⟩ := ih _ others filled.2 later reads.2 spent
        exact ⟨other, List.mem_cons_of_mem runId member, refused⟩

section

variable {limits : TraceLimits} {s : Session} {live : LiveAttempt}

theorem eventsOf_eq (traces : TraceFiles) (runId : Text) :
    eventsOf traces runId = traceEvents ((traces.get? runId).getD []) := by
  unfold eventsOf
  cases traces.get? runId with
  | none => exact traceEvents_nil.symm
  | some file => rfl

theorem eventsOf_set_self (traces : TraceFiles) (runId file : Text) :
    eventsOf (traces.set runId file) runId = traceEvents file := by
  rw [eventsOf_eq, Dict.get?_set_self, Option.getD_some]

theorem eventsOf_set_of_ne {runId other : Text} (ne : runId ≠ other) (traces : TraceFiles)
    (file : Text) : eventsOf (traces.set runId file) other = eventsOf traces other := by
  rw [eventsOf_eq, Dict.get?_set_of_ne _ _ ne, ← eventsOf_eq]

def liveIds (live : Option LiveAttempt) : List Text := (live.map LiveAttempt.runId).toList

structure Kept (py : Builtins) (s : Session) : Prop where
  runs : ∃ failed, FailuresOf (failedResearchAttempts s.rows) failed ∧
    s.runIds = failed ++ liveIds s.live
  nodup : s.runIds.Nodup
  filled : ∀ runId ∈ s.runIds, runId ≠ []
  fresh : ∀ runId ∉ s.runIds, s.traces.get? runId = none
  whole : ∀ live, s.live = some live →
    ∃ events, (s.traces.get? live.runId).getD [] = dumpLines events
  stopped : ∀ live, s.live = some live → live.full = true → marked s.traces live.runId = true
  dropped : ∀ runId ∈ s.dropped, runId ∈ s.runIds ∧ marked s.traces runId = true
  marks : ∀ runId ∈ s.runIds, marked s.traces runId = true → runId ∈ s.dropped
  reads : ∀ runId ∈ s.runIds, Reads py (eventsOf s.traces runId)
  /-- While nothing is dropped, the last spend in the traces is the last block. -/
  spend : s.dropped = [] → ∃ used,
    BudgetUsed.fromRecord py (lastSpend [] (s.runIds.flatMap (eventsOf s.traces))) = .ok used ∧
      BudgetUsed.fromRecord py s.lastBlock = .ok used

theorem kept_start (py : Builtins) : Kept py {} where
  runs := ⟨[], rfl, rfl⟩
  nodup := List.nodup_nil
  filled := by simp
  fresh runId _ := rfl
  whole live none_ := by cases none_
  stopped live none_ := by cases none_
  dropped := by simp
  marks := by simp
  reads := by simp
  spend _ := ⟨{}, rfl, rfl⟩

theorem Kept.eventsOf_grow (kept : Kept py s) (running : s.live = some live)
    (new : List JsonObject) :
    eventsOf (s.traces.set live.runId
        ((s.traces.get? live.runId).getD [] ++ dumpLines new)) live.runId =
      eventsOf s.traces live.runId ++ new := by
  obtain ⟨events, file⟩ := kept.whole live running
  rw [eventsOf_set_self, eventsOf_eq, file, traceEvents_append, traceEvents_dumpLines,
    traceEvents_dumpLines]

theorem marked_of_append {traces traces' : TraceFiles} {runId : Text} {new : List JsonObject}
    (grown : eventsOf traces' runId = eventsOf traces runId ++ new) :
    marked traces' runId =
      (marked traces runId || new.any fun event => isEvent event .traceLimitReached) := by
  unfold marked
  rw [grown, List.any_append]

theorem Kept.flatMap_grow (kept : Kept py s) (running : s.live = some live)
    (new : List JsonObject) :
    s.runIds.flatMap (eventsOf (s.traces.set live.runId
        ((s.traces.get? live.runId).getD [] ++ dumpLines new))) =
      s.runIds.flatMap (eventsOf s.traces) ++ new := by
  obtain ⟨failed, -, runs⟩ := kept.runs
  rw [running] at runs
  change s.runIds = failed ++ [live.runId] at runs
  have distinct : live.runId ∉ failed := by
    have nodup := kept.nodup
    rw [runs, List.nodup_append] at nodup
    intro member
    exact nodup.2.2 _ member _ (List.mem_singleton_self _) rfl
  have before : failed.flatMap (eventsOf (s.traces.set live.runId
      ((s.traces.get? live.runId).getD [] ++ dumpLines new))) =
        failed.flatMap (eventsOf s.traces) := by
    apply List.flatMap_congr
    intro runId member
    apply eventsOf_set_of_ne
    rintro rfl
    exact distinct member
  rw [runs, List.flatMap_append, List.flatMap_append, before, List.flatMap_singleton,
    List.flatMap_singleton, kept.eventsOf_grow running, List.append_assoc]

theorem Kept.grow (kept : Kept py s) (running : s.live = some live) {live' : LiveAttempt}
    (same : live'.runId = live.runId) {new : List JsonObject} (reads : Reads py new)
    {lastBlock : JsonObject} {dropped : List Text}
    (stopped : live'.full = true → live.full = true ∨ marked s.traces live.runId = true ∨
      new.any (fun event => isEvent event .traceLimitReached) = true)
    (drops : dropped = s.dropped ∨ (dropped = live.runId :: s.dropped ∧
      (marked s.traces live.runId = true ∨
        new.any (fun event => isEvent event .traceLimitReached) = true)))
    (marks : new.any (fun event => isEvent event .traceLimitReached) = true →
      live.runId ∈ dropped)
    (spend : dropped = [] → ∀ block used, BudgetUsed.fromRecord py block = .ok used →
      BudgetUsed.fromRecord py s.lastBlock = .ok used → ∃ used',
        BudgetUsed.fromRecord py (lastSpend block new) = .ok used' ∧
          BudgetUsed.fromRecord py lastBlock = .ok used') :
    Kept py { s with
      traces := s.traces.set live.runId
        ((s.traces.get? live.runId).getD [] ++ dumpLines new)
      live := some live'
      lastBlock
      dropped } := by
  have grown := marked_of_append (kept.eventsOf_grow running new)
  have other : ∀ runId, live.runId ≠ runId → eventsOf (s.traces.set live.runId
      ((s.traces.get? live.runId).getD [] ++ dumpLines new)) runId = eventsOf s.traces runId :=
    fun runId ne => eventsOf_set_of_ne ne _ _
  have member : live.runId ∈ s.runIds := by
    obtain ⟨failed, -, runs⟩ := kept.runs
    rw [runs, running]
    exact List.mem_append_right failed (List.mem_singleton_self _)
  have keeps : ∀ runId, marked s.traces runId = true → marked (s.traces.set live.runId
      ((s.traces.get? live.runId).getD [] ++ dumpLines new)) runId = true := by
    intro runId marked_
    by_cases here : live.runId = runId
    · rw [← here, grown, here, marked_, Bool.true_or]
    · unfold marked
      rw [other runId here]
      exact marked_
  constructor
  case runs =>
    obtain ⟨failed, failures, runs⟩ := kept.runs
    refine ⟨failed, failures, ?_⟩
    rw [running] at runs
    show s.runIds = failed ++ [live'.runId]
    rw [same]
    exact runs
  case nodup => exact kept.nodup
  case filled => exact kept.filled
  case fresh =>
    intro runId absent
    have ne : live.runId ≠ runId := by
      rintro rfl
      exact absent member
    exact (Dict.get?_set_of_ne _ _ ne).trans (kept.fresh runId absent)
  case whole =>
    intro live₁ running₁
    cases running₁
    obtain ⟨events, file⟩ := kept.whole live running
    refine ⟨events ++ new, ?_⟩
    show ((s.traces.set live.runId _).get? live'.runId).getD [] = _
    rw [same, Dict.get?_set_self, Option.getD_some, file]
    exact List.flatMap_append.symm
  case stopped =>
    intro live₁ running₁ full
    cases running₁
    show marked (s.traces.set live.runId _) live'.runId = true
    rw [same, grown]
    rcases stopped full with before | marked_ | limit
    · rw [kept.stopped live running before, Bool.true_or]
    · rw [marked_, Bool.true_or]
    · rw [limit, Bool.or_true]
  case dropped =>
    intro runId inDropped
    change runId ∈ dropped at inDropped
    have old : ∀ runId ∈ s.dropped, runId ∈ s.runIds ∧ marked (s.traces.set live.runId
        ((s.traces.get? live.runId).getD [] ++ dumpLines new)) runId = true := by
      intro runId inDropped
      obtain ⟨known, marked_⟩ := kept.dropped runId inDropped
      exact ⟨known, keeps runId marked_⟩
    rcases drops with rfl | ⟨rfl, limit⟩
    · exact old runId inDropped
    · rcases List.mem_cons.mp inDropped with rfl | inDropped
      · refine ⟨member, ?_⟩
        show marked (s.traces.set live.runId _) live.runId = true
        rw [grown]
        exact Bool.or_eq_true_iff.mpr limit
      · exact old runId inDropped
  case marks =>
    intro runId known marked_
    have keeps' : ∀ runId ∈ s.dropped, runId ∈ dropped := by
      intro runId inDropped
      rcases drops with rfl | ⟨rfl, -⟩
      · exact inDropped
      · exact List.mem_cons_of_mem _ inDropped
    by_cases here : live.runId = runId
    · subst here
      change marked (s.traces.set live.runId _) live.runId = true at marked_
      rw [grown, Bool.or_eq_true_iff] at marked_
      rcases marked_ with before | limit
      · exact keeps' _ (kept.marks _ known before)
      · exact marks limit
    · unfold marked at marked_
      rw [other runId here] at marked_
      exact keeps' runId (kept.marks runId known marked_)
  case reads =>
    intro runId known
    by_cases here : live.runId = runId
    · subst here
      show Reads py (eventsOf (s.traces.set live.runId _) live.runId)
      rw [kept.eventsOf_grow running]
      exact (kept.reads _ known).append reads
    · show Reads py (eventsOf (s.traces.set live.runId _) runId)
      rw [other runId here]
      exact kept.reads runId known
  case spend =>
    intro none_
    have before : s.dropped = [] := by
      rcases drops with rfl | ⟨rfl, -⟩
      · exact none_
      · cases none_
    obtain ⟨used, traced, last⟩ := kept.spend before
    show ∃ used', BudgetUsed.fromRecord py (lastSpend [] (s.runIds.flatMap
      (eventsOf (s.traces.set live.runId _)))) = .ok used' ∧ _
    rw [kept.flatMap_grow running]
    unfold lastSpend
    rw [List.foldl_append]
    exact spend none_ _ used traced last

theorem ids_plain (ids : TraceIds) :
    "event_type" ∉ ids.fields.map Prod.fst ∧ "budget_used" ∉ ids.fields.map Prod.fst := by
  simp [TraceIds.fields]

theorem Emission.event_ne_limit (emission : Emission) : emission.event ≠ .traceLimitReached := by
  cases emission with
  | session event payload used => exact event.own
  | stage payload => exact TraceEvent.noConfusion

theorem Emission.field_payload (py : Builtins) (emission : Emission) :
    (emission.payload py).field "budget_used" = (emission.block py).map obj := by
  unfold Emission.payload
  cases emission.block py with
  | some block => exact field_setField_self _ _ _
  | none =>
    cases emission with
    | session event payload used => exact payload.unspent
    | stage payload => exact payload.unspent

variable {emission : Emission}

theorem Emission.block_reads {block : JsonObject} (budgeted : emission.block py = some block) :
    ∃ used, BudgetUsed.fromRecord py block = .ok used := by
  cases emission with
  | session event payload used =>
    unfold Emission.block at budgeted
    dsimp only at budgeted
    split_ifs at budgeted
    cases budgeted
    exact ⟨_, fromRecord_toRecord used⟩
  | stage payload => cases budgeted

variable {record : JsonObject}

theorem textField_line {key : String} {t u : Text} (held : record.field key = some (str t)) :
    field (sortFields record) key = some (str u) ↔ t = u := by
  rw [field_sortFields, held, Option.map_some, sortKeys_str, Option.some.injEq, Json.str.injEq]

theorem LiveAttempt.record_eq_ok {stamp : TraceStamp}
    (sized : live.record limits py emission stamp = .ok record)
    (uncut : ((emission.block py).isNone || byteLength (Trace.encodeLine (Trace.traceRecord
      live.ids.fields emission.event (emission.payload py) stamp)) ≤ limits.maxEventBytes) = true) :
    isEvent (sortFields record) .traceLimitReached = false ∧
      field (sortFields record) "budget_used" =
        (emission.block py).map fun block => obj (sortFields block) := by
  obtain ⟨typed, named⟩ := ids_plain live.ids
  obtain ⟨type, kept⟩ := Trace.sizedRecord_eq_ok typed sized "budget_used"
    (by decide) named (by decide)
  constructor
  · unfold isEvent
    apply decide_eq_false
    rw [textField_line type]
    exact TraceEvent.name_ne_limit emission.event_ne_limit
  · rw [field_sortFields, kept, emission.field_payload]
    split_ifs with fits
    · rw [Option.map_map]
      rfl
    · rw [decide_eq_false fits, Bool.or_false] at uncut
      rw [Option.isNone_iff_eq_none.mp uncut]
      rfl

theorem spendAfter_of_block {event : JsonObject} {block : Option JsonObject}
    (held : event.field "budget_used" = block.map fun block => obj (sortFields block))
    (before : JsonObject) :
    spendAfter before event = (block.map sortFields).getD before := by
  unfold spendAfter
  rw [held]
  cases block <;> rfl

theorem encodeLine_eq (record : JsonObject) :
    Trace.encodeLine record = dumpLines [sortFields record] := by
  unfold Trace.encodeLine dumpLines
  rw [List.flatMap_singleton]

theorem limitMarker_isEvent (limits : TraceLimits) (ids : TraceIds) (stamp : TraceStamp) :
    isEvent (sortFields (Trace.limitMarker limits ids.fields stamp)) .traceLimitReached = true := by
  unfold isEvent
  apply decide_eq_true
  rw [textField_line (Trace.type_limitMarker (ids_plain ids).1 limits stamp)]

theorem limitMarker_unspent (limits : TraceLimits) (ids : TraceIds) (stamp : TraceStamp) :
    field (sortFields (Trace.limitMarker limits ids.fields stamp)) "budget_used" = none := by
  rw [field_sortFields]
  have absent : (Trace.limitMarker limits ids.fields stamp).field "budget_used" = none := by
    unfold Trace.limitMarker
    rw [field_update_of_not_mem]
    · rfl
    · simp [Trace.idFields, TraceIds.fields]
  rw [absent]
  rfl

/-- The live attempt, once its session's writer may have stopped. -/
def LiveAttempt.after (live : LiveAttempt) (emission : Emission) (full : Bool) : LiveAttempt :=
  match emission with
  | .session _ _ _ => { live with full }
  | .stage _ => live

theorem LiveAttempt.runId_after (live : LiveAttempt) (emission : Emission) (full : Bool) :
    (live.after emission full).runId = live.runId := by
  cases emission <;> rfl

theorem LiveAttempt.file_trace (live : LiveAttempt) (traces : TraceFiles) (emission : Emission) :
    (live.trace traces emission).file = (traces.get? live.runId).getD [] := by
  cases emission <;> rfl

theorem LiveAttempt.full_trace {traces : TraceFiles}
    (full : (live.trace traces emission).full = true) : live.full = true := by
  cases emission with
  | session event payload used => exact full
  | stage payload => cases full

theorem Kept.written (kept : Kept py s) (running : s.live = some live)
    (spoken : isEvent (sortFields record) .traceLimitReached = false ∧
      field (sortFields record) "budget_used" =
        (emission.block py).map fun block => obj (sortFields block)) :
    Kept py { s with
      traces := s.traces.set live.runId
        ((s.traces.get? live.runId).getD [] ++ Trace.encodeLine record)
      live := some (live.after emission (live.trace s.traces emission).full)
      lastBlock := (emission.block py).getD s.lastBlock } := by
  obtain ⟨plain, held⟩ := spoken
  have noLimit : [sortFields record].any (fun event => isEvent event .traceLimitReached) = false := by
    rw [List.any_cons, plain]
    rfl
  have reads : Reads py [sortFields record] := by
    intro event member block carried
    rw [List.mem_singleton.mp member, held] at carried
    cases budgeted : emission.block py with
    | none =>
      rw [budgeted] at carried
      cases carried
    | some emitted =>
      rw [budgeted] at carried
      cases carried
      obtain ⟨used, taken⟩ := Emission.block_reads budgeted
      exact ⟨used, (fromRecord_sortFields emitted).trans taken⟩
  rw [encodeLine_eq]
  apply kept.grow running (live.runId_after emission _) reads
  · intro full
    left
    cases emission with
    | session event payload used => exact full
    | stage payload => exact full
  · exact .inl rfl
  · intro limit
    rw [noLimit] at limit
    cases limit
  · intro none_ block used traced last
    show ∃ used', BudgetUsed.fromRecord py (spendAfter block (sortFields record)) = .ok used' ∧ _
    rw [spendAfter_of_block held]
    cases budgeted : emission.block py with
    | none => exact ⟨used, traced, last⟩
    | some emitted =>
      obtain ⟨used', taken⟩ := Emission.block_reads budgeted
      exact ⟨used', (fromRecord_sortFields emitted).trans taken, taken⟩

theorem Kept.drop (kept : Kept py s) (running : s.live = some live) {markerStamp : TraceStamp}
    (fits : (Trace.hasRoom limits ((s.traces.get? live.runId).getD []) record ||
      marked s.traces live.runId || Trace.hasRoom limits ((s.traces.get? live.runId).getD [])
        (Trace.limitMarker limits live.ids.fields markerStamp)) = true)
    (stopped : ((live.trace s.traces emission).full ||
      !Trace.hasRoom limits (live.trace s.traces emission).file record) = true) :
    Kept py { s with
      traces := s.traces.set live.runId ((live.trace s.traces emission).stop limits
        (Trace.limitMarker limits live.ids.fields markerStamp)).file
      live := some (live.after emission ((live.trace s.traces emission).stop limits
        (Trace.limitMarker limits live.ids.fields markerStamp)).full)
      lastBlock := (emission.block py).getD s.lastBlock
      dropped := live.runId :: s.dropped } := by
  have unchanged (lastBlock : JsonObject) (full : Bool)
      (marks : marked s.traces live.runId = true) :
      Kept py { s with
        traces := s.traces.set live.runId ((s.traces.get? live.runId).getD [])
        live := some (live.after emission full)
        lastBlock
        dropped := live.runId :: s.dropped } := by
    have same : (s.traces.get? live.runId).getD [] =
        (s.traces.get? live.runId).getD [] ++ dumpLines [] := (List.append_nil _).symm
    rw [same]
    apply kept.grow running (live.runId_after emission full) (fun event member => by cases member)
    · exact fun _ => .inr (.inl marks)
    · exact .inr ⟨rfl, .inl marks⟩
    · exact fun limit => by cases limit
    · exact fun none_ => by cases none_
  cases full : (live.trace s.traces emission).full with
  | true =>
    rw [Trace.stop_of_full full, live.file_trace]
    exact unchanged _ _ (kept.stopped live running (live.full_trace full))
  | false =>
    rw [full, Bool.false_or, live.file_trace, Bool.not_eq_true'] at stopped
    rw [stopped, Bool.false_or, Bool.or_eq_true_iff] at fits
    rw [Trace.file_stop full, live.file_trace]
    split_ifs with room
    · have limit := limitMarker_isEvent limits live.ids markerStamp
      rw [encodeLine_eq]
      apply kept.grow running (live.runId_after emission _)
      · intro event member block carried
        rw [List.mem_singleton.mp member, limitMarker_unspent] at carried
        cases carried
      · intro _
        right
        right
        rw [List.any_cons, limit, Bool.true_or]
      · right
        refine ⟨rfl, .inr ?_⟩
        rw [List.any_cons, limit, Bool.true_or]
      · exact fun _ => List.mem_cons_self
      · exact fun none_ => by cases none_
    · rcases fits with marks | fits
      · exact unchanged _ _ marks
      · exact absurd fits room

theorem Kept.emit (kept : Kept py s) {stamp markerStamp : TraceStamp}
    (heeds : s.heeds limits py (.emit emission stamp markerStamp) = true) :
    Kept py (s.emit limits py emission stamp markerStamp) := by
  unfold Session.heeds at heeds
  unfold Session.emit
  cases running : s.live with
  | none => exact kept
  | some live =>
    rw [running] at heeds
    dsimp only at heeds ⊢
    cases sized : live.record limits py emission stamp with
    | error e => exact kept
    | ok record =>
      rw [sized, Bool.and_eq_true_iff] at heeds
      obtain ⟨uncut, fits⟩ := heeds
      dsimp only at fits ⊢
      by_cases stopped : ((live.trace s.traces emission).full ||
          !Trace.hasRoom limits (live.trace s.traces emission).file record) = true
      · -- the event is dropped: its writer has stopped, or stops now
        rw [if_pos stopped, Trace.write_of_no_room stopped]
        exact kept.drop running fits stopped
      · rw [if_neg stopped]
        rw [Bool.not_eq_true, Bool.or_eq_false_iff, Bool.not_eq_false'] at stopped
        rw [Trace.write_of_room stopped.1 stopped.2, live.file_trace]
        exact kept.written running (LiveAttempt.record_eq_ok sized uncut)

theorem Kept.begin (kept : Kept py s) (runId : Token) (ids : TraceIds) :
    Kept py (s.begin runId ids) := by
  unfold Session.begin
  split_ifs with refused
  · exact kept
  · push Not at refused
    obtain ⟨idle, new⟩ := refused
    have none_ : s.live = none := by
      rw [ne_eq, Option.not_isSome_iff_eq_none] at idle
      exact idle
    have empty : eventsOf s.traces runId.text = [] := by
      unfold eventsOf
      rw [kept.fresh _ new]
    have unmarked : marked s.traces runId.text = false := by
      unfold marked
      rw [empty]
      rfl
    have cases_ : ∀ other ∈ s.runIds ++ [runId.text], other ∈ s.runIds ∨ other = runId.text := by
      intro other member
      simpa using member
    constructor
    case runs =>
      obtain ⟨failed, failures, runs⟩ := kept.runs
      refine ⟨failed, failures, ?_⟩
      rw [none_] at runs
      show s.runIds ++ [runId.text] = failed ++ [runId.text]
      rw [runs]
      exact congrArg (· ++ [runId.text]) (List.append_nil failed)
    case nodup =>
      apply kept.nodup.append (List.nodup_singleton _)
      rw [List.disjoint_singleton]
      exact new
    case filled =>
      intro other member
      rcases cases_ other member with old | rfl
      · exact kept.filled other old
      · exact runId.ne_nil
    case fresh =>
      intro other absent
      apply kept.fresh
      exact fun member => absent (List.mem_append_left _ member)
    case whole =>
      intro live running
      cases running
      refine ⟨[], ?_⟩
      show (s.traces.get? runId.text).getD [] = _
      rw [kept.fresh _ new]
      rfl
    case stopped =>
      intro live running full
      cases running
      cases full
    case dropped =>
      intro other member
      obtain ⟨known, marks⟩ := kept.dropped other member
      exact ⟨List.mem_append_left _ known, marks⟩
    case marks =>
      intro other member marks
      rcases cases_ other member with old | rfl
      · exact kept.marks other old marks
      · change marked s.traces runId.text = true at marks
        rw [unmarked] at marks
        cases marks
    case reads =>
      intro other member
      rcases cases_ other member with old | rfl
      · exact kept.reads other old
      · show Reads py (eventsOf s.traces runId.text)
        rw [empty]
        exact fun event member => by cases member
    case spend =>
      intro whole
      obtain ⟨used, traced, last⟩ := kept.spend whole
      refine ⟨used, ?_, last⟩
      show BudgetUsed.fromRecord py (lastSpend []
        ((s.runIds ++ [runId.text]).flatMap (eventsOf s.traces))) = .ok used
      rw [List.flatMap_append, List.flatMap_singleton, empty, List.append_nil]
      exact traced

theorem failedResearchAttempts_append (rows : List JsonObject) (record : JsonObject) :
    failedResearchAttempts (rows ++ [record]) =
      failedResearchAttempts rows ++ if isFailedAttempt record then [record] else [] := by
  have one : failedResearchAttempts [record] = if isFailedAttempt record then [record] else [] := by
    unfold isFailedAttempt failedResearchAttempts
    rw [List.filter_singleton, Bool.cond_eq_ite]
    split_ifs <;> simp_all
  rw [← one]
  exact List.filter_append _ _

theorem Kept.append (kept : Kept py s) (record : JsonObject) : Kept py (s.append record) := by
  unfold Session.append
  by_cases failure : isFailedAttempt record = true
  · rw [if_pos failure]
    exact kept
  · rw [if_neg failure]
    obtain ⟨failed, failures, runs⟩ := kept.runs
    have same : failedResearchAttempts (s.rows ++ [record]) = failedResearchAttempts s.rows := by
      rw [failedResearchAttempts_append, if_neg failure, List.append_nil]
    have runs' : FailuresOf (failedResearchAttempts (s.rows ++ [record])) failed := by
      rw [same]
      exact failures
    exact ⟨⟨failed, runs', runs⟩, kept.nodup, kept.filled, kept.fresh, kept.whole, kept.stopped,
      kept.dropped, kept.marks, kept.reads, kept.spend⟩

theorem Kept.eventsOf_cutShort (kept : Kept py s) (running : s.live = some live)
    (torn : Option (JsonObject × Nat)) :
    eventsOf (cutShort s.traces live.runId torn) = eventsOf s.traces := by
  cases torn with
  | none => rfl
  | some torn =>
    funext runId
    by_cases here : live.runId = runId
    · subst here
      obtain ⟨events, file⟩ := kept.whole live running
      unfold cutShort
      rw [eventsOf_set_self, eventsOf_eq, file, traceEvents_append, traceEvents_tornLine,
        traceEvents_dumpLines, List.append_nil]
    · exact eventsOf_set_of_ne here _ _

theorem get?_cutShort {runId other : Text} (ne : runId ≠ other) (traces : TraceFiles)
    (torn : Option (JsonObject × Nat)) :
    (cutShort traces runId torn).get? other = traces.get? other := by
  cases torn with
  | none => rfl
  | some torn => exact Dict.get?_set_of_ne _ _ ne

theorem Kept.fail (kept : Kept py s) (record : JsonObject) (torn : Option (JsonObject × Nat)) :
    Kept py (s.fail record torn) := by
  unfold Session.fail
  cases running : s.live with
  | none => exact kept
  | some live =>
    dsimp only
    split_ifs with failure
    · obtain ⟨failed_, named⟩ := Bool.and_eq_true_iff.mp failure
      have events := kept.eventsOf_cutShort running torn
      have others (runId : Text) (ne : live.runId ≠ runId) := get?_cutShort ne s.traces torn
      generalize cutShort s.traces live.runId torn = traces at events others ⊢
      have marks (runId : Text) : marked traces runId = marked s.traces runId := by
        unfold marked
        rw [events]
      obtain ⟨failed, failures, runs⟩ := kept.runs
      rw [running] at runs
      constructor
      case runs =>
        refine ⟨failed ++ [live.runId], ?_, runs.trans (List.append_nil _).symm⟩
        show FailuresOf (failedResearchAttempts (s.rows ++ [record])) _
        rw [failedResearchAttempts_append, if_pos failed_]
        unfold FailuresOf
        rw [List.map_append, List.map_append, failures]
        congr 1
        rw [List.map_singleton, List.map_singleton, of_decide_eq_true named]
      case nodup => exact kept.nodup
      case filled => exact kept.filled
      case fresh =>
        intro runId absent
        change runId ∉ s.runIds at absent
        have ne : live.runId ≠ runId := by
          rintro rfl
          apply absent
          rw [runs]
          exact List.mem_append_right failed (List.mem_singleton_self _)
        exact (others runId ne).trans (kept.fresh runId absent)
      case whole => exact fun live none_ => by cases none_
      case stopped => exact fun live none_ => by cases none_
      case dropped =>
        intro runId member
        obtain ⟨known, limit⟩ := kept.dropped runId member
        exact ⟨known, (marks runId).trans limit⟩
      case marks =>
        intro runId known limit
        exact kept.marks runId known ((marks runId).symm.trans limit)
      case reads =>
        intro runId known
        show Reads py (eventsOf traces runId)
        rw [events]
        exact kept.reads runId known
      case spend =>
        intro whole
        show ∃ used, BudgetUsed.fromRecord py (lastSpend [] (s.runIds.flatMap (eventsOf traces))) =
          .ok used ∧ _
        rw [events]
        exact kept.spend whole
    · exact kept

theorem Kept.step (kept : Kept py s) {event : Event} (heeds : s.heeds limits py event = true) :
    Kept py (s.step limits py event) := by
  cases event with
  | begin runId ids => exact kept.begin runId ids
  | emit emission stamp markerStamp =>
    have emitted : Kept py (s.emit limits py emission stamp markerStamp) := kept.emit heeds
    exact emitted
  | fail record torn => exact kept.fail record torn
  | append record => exact kept.append record

theorem Kept.run (kept : Kept py s) {events : List Event}
    (heeds : s.heedsAll limits py events = true) : Kept py (s.run limits py events) := by
  induction events generalizing s with
  | nil => exact kept
  | cons event events ih =>
    obtain ⟨here, later⟩ := Bool.and_eq_true_iff.mp heeds
    exact ih (kept.step here) later

theorem Kept.failures (kept : Kept py s) (idle : s.live = none) :
    FailuresOf (failedResearchAttempts s.rows) s.runIds := by
  obtain ⟨failed, failures, runs⟩ := kept.runs
  rw [idle] at runs
  rw [runs]
  show FailuresOf _ (failed ++ [])
  rw [List.append_nil]
  exact failures

theorem FailuresOf.nil {runIds : List Text} (failures : FailuresOf [] runIds) : runIds = [] :=
  List.map_eq_nil_iff.mp failures.symm

theorem Kept.seeds (kept : Kept py s) (idle : s.live = none) (whole : s.dropped = [])
    (redact : Text → Text) : ∃ used, seededBudget py redact s.traces s.rows = .ok used ∧
      BudgetUsed.fromRecord py s.lastBlock = .ok used := by
  have failures := kept.failures idle
  have plain : ∀ runId ∈ s.runIds, marked s.traces runId = false := by
    intro runId known
    apply Bool.eq_false_iff.mpr
    intro marks
    have dropped := kept.marks runId known marks
    rw [whole] at dropped
    cases dropped
  obtain ⟨used, traced, last⟩ := kept.spend whole
  obtain ⟨read, taken, spent⟩ := readAttempts_eq_ok {} failures kept.filled plain
    kept.reads (fromRecord_nil py)
  have same : read.budget = used := Except.ok.inj (spent.symm.trans traced)
  refine ⟨used, ?_, last⟩
  unfold seededBudget resumeState
  dsimp only
  cases ended : (failedResearchAttempts s.rows).getLast? with
  | none =>
    rw [List.getLast?_eq_none_iff.mp ended] at taken
    cases taken
    rw [← same]
    rfl
  | some attempt =>
    dsimp only
    rw [taken, ← same]
    rfl

theorem Kept.refuses (kept : Kept py s) (idle : s.live = none) {runId : Text}
    (dropped : runId ∈ s.dropped) (redact : Text → Text) :
    ∃ runId ∈ s.runIds, resumeState py redact s.traces s.rows = .error (.sizeCap runId) := by
  have failures := kept.failures idle
  obtain ⟨known, marks⟩ := kept.dropped runId dropped
  obtain ⟨other, member, refused⟩ := readAttempts_of_limit {} failures kept.filled
    ⟨runId, known, marks⟩ kept.reads (fromRecord_nil py)
  refine ⟨other, member, ?_⟩
  unfold resumeState
  dsimp only
  cases ended : (failedResearchAttempts s.rows).getLast? with
  | none =>
    rw [List.getLast?_eq_none_iff.mp ended] at failures
    rw [failures.nil] at member
    cases member
  | some attempt =>
    dsimp only
    rw [refused]
    rfl

end

variable {limits : TraceLimits} {py : Builtins} {events : List Event}

/-- A session that resumes goes on from the last spend that was emitted, and one an
    event of which was dropped carries the marker and is not resumed. -/
theorem resume_keeps_spend (redact : Text → Text)
    (heeds : Session.heedsAll limits py {} events = true) :
    (∀ runId ∈ (Session.run limits py {} events).dropped,
      marked (Session.run limits py {} events).traces runId = true) ∧
    ((Session.run limits py {} events).live = none →
      ((Session.run limits py {} events).dropped = [] → ∃ used,
        seededBudget py redact (Session.run limits py {} events).traces
            (Session.run limits py {} events).rows = .ok used ∧
          BudgetUsed.fromRecord py (Session.run limits py {} events).lastBlock = .ok used) ∧
      ((Session.run limits py {} events).dropped ≠ [] →
        ∃ runId ∈ (Session.run limits py {} events).runIds,
          resumeState py redact (Session.run limits py {} events).traces
            (Session.run limits py {} events).rows = .error (.sizeCap runId))) := by
  have kept : Kept py (Session.run limits py {} events) := (kept_start py).run heeds
  refine ⟨fun runId member => (kept.dropped runId member).2, fun idle => ⟨?_, ?_⟩⟩
  · intro whole
    exact kept.seeds idle whole redact
  · intro some_
    obtain ⟨runId, member⟩ := List.exists_mem_of_ne_nil _ some_
    exact kept.refuses idle member redact

theorem step_begin (s : Session) (runId : Token) (ids : TraceIds) :
    s.step limits py (.begin runId ids) = s.begin runId ids := rfl

theorem step_emit (s : Session) (emission : Emission) (stamp markerStamp : TraceStamp) :
    s.step limits py (.emit emission stamp markerStamp) =
      s.emit limits py emission stamp markerStamp := rfl

theorem step_fail (s : Session) (record : JsonObject) (torn : Option (JsonObject × Nat)) :
    s.step limits py (.fail record torn) = s.fail record torn := rfl

theorem record_of_cut {ids : TraceIds} {emission : Emission} {stamp : TraceStamp}
    (sized : Trace.sizedRecord limits py.render ids.fields emission.event (emission.payload py)
      stamp = .ok record)
    (cut : limits.maxEventBytes < byteLength (Trace.encodeLine (Trace.traceRecord ids.fields
      emission.event (emission.payload py) stamp))) :
    isEvent (sortFields record) .traceLimitReached = false ∧
      field (sortFields record) "budget_used" = none := by
  obtain ⟨typed, plain⟩ := ids_plain ids
  obtain ⟨type, lost⟩ := Trace.sizedRecord_eq_ok typed sized "budget_used"
    (by decide) plain (by decide)
  constructor
  · unfold isEvent
    apply decide_eq_false
    rw [textField_line type]
    exact TraceEvent.name_ne_limit emission.event_ne_limit
  · rw [field_sortFields, lost, if_neg (Nat.not_le.mpr cut)]
    rfl

theorem cut_spend_forgotten (runId : Token) (markerStamp : TraceStamp) {ids : TraceIds}
    {emission : Emission} {stamp : TraceStamp} {record row : JsonObject} (redact : Text → Text)
    (cut : limits.maxEventBytes < byteLength (Trace.encodeLine (Trace.traceRecord ids.fields
      emission.event (emission.payload py) stamp)))
    (sized : Trace.sizedRecord limits py.render ids.fields emission.event (emission.payload py)
      stamp = .ok record)
    (failure : isFailedAttempt row = true) (named : row.field "run_id" = some (str runId.text)) :
    ∃ s : Session, Session.run limits py {}
        [.begin runId ids, .emit emission stamp markerStamp, .fail row none] = s ∧
      s.live = none ∧ s.dropped = [] ∧ s.lastBlock = (emission.block py).getD [] ∧
      seededBudget py redact s.traces s.rows = .ok {} := by
  have small : byteLength (Trace.encodeLine record) ≤ limits.maxBytes :=
    (Trace.sizedRecord_le sized).trans limits.valid.2.2
  have room : Trace.hasRoom limits [] record = true := by
    apply decide_eq_true
    rw [show byteLength [] = 0 from rfl, Nat.zero_add]
    exact small
  let live : LiveAttempt := { runId := runId.text, ids }
  have began : Session.begin {} runId ids = { runIds := [runId.text], live := some live } := by
    unfold Session.begin
    rw [if_neg (by simp)]
    rfl
  have opened : live.trace .empty emission = {} := by
    cases emission <;> rfl
  have emitted : Session.emit limits py { runIds := [runId.text], live := some live } emission
      stamp markerStamp = {
        runIds := [runId.text]
        traces := Dict.set .empty runId.text (Trace.encodeLine record)
        live := some (live.after emission false)
        lastBlock := (emission.block py).getD [] } := by
    unfold Session.emit LiveAttempt.record
    dsimp only
    rw [sized, opened]
    dsimp only
    rw [Trace.write_of_room rfl room, room]
    rfl
  have failed : Session.fail {
        runIds := [runId.text]
        traces := Dict.set .empty runId.text (Trace.encodeLine record)
        live := some (live.after emission false)
        lastBlock := (emission.block py).getD [] } row none = {
          rows := [row]
          runIds := [runId.text]
          traces := Dict.set .empty runId.text (Trace.encodeLine record)
          lastBlock := (emission.block py).getD [] } := by
    unfold Session.fail
    dsimp only
    rw [live.runId_after, failure, decide_eq_true named]
    rfl
  refine ⟨{ rows := [row]
            runIds := [runId.text]
            traces := Dict.set .empty runId.text (Trace.encodeLine record)
            lastBlock := (emission.block py).getD [] }, ?_, rfl, rfl, rfl, ?_⟩
  · unfold Session.run
    rw [List.foldl_cons, List.foldl_cons, List.foldl_cons, List.foldl_nil, step_begin, began,
      step_emit, emitted, step_fail, failed]
  · obtain ⟨plain, lost⟩ := record_of_cut sized cut
    have attempts : failedResearchAttempts [row] = [row] := by
      have one := failedResearchAttempts_append [] row
      rw [if_pos failure] at one
      exact one
    have failures : FailuresOf [row] [runId.text] := by
      unfold FailuresOf
      rw [List.map_singleton, List.map_singleton, named]
    have events : eventsOf (Dict.set .empty runId.text (Trace.encodeLine record)) runId.text =
        [sortFields record] := by
      rw [eventsOf_set_self, encodeLine_eq, traceEvents_dumpLines]
    generalize Dict.set .empty runId.text (Trace.encodeLine record) = traces at events ⊢
    have unmarked : marked traces runId.text = false := by
      unfold marked
      rw [events, List.any_cons, plain]
      rfl
    have reads : Reads py (eventsOf traces runId.text) := by
      rw [events]
      intro event member block carried
      rw [List.mem_singleton.mp member, lost] at carried
      cases carried
    obtain ⟨read, taken, spent⟩ := readAttempts_eq_ok {} failures
      (List.forall_mem_singleton.mpr runId.ne_nil) (List.forall_mem_singleton.mpr unmarked)
      (List.forall_mem_singleton.mpr reads) (fromRecord_nil py)
    rw [List.flatMap_singleton, events] at spent
    have after : lastSpend [] [sortFields record] = [] := by
      show spendAfter [] (sortFields record) = []
      unfold spendAfter
      rw [lost]
    rw [after, fromRecord_nil] at spent
    unfold seededBudget resumeState
    dsimp only
    rw [attempts]
    dsimp only [List.getLast?_singleton]
    rw [taken, Except.ok.inj spent]
    rfl

def sampleBuiltins : Builtins := ⟨fun _ => [], fun _ amount => amount, fun _ => 0⟩

def sampleIds : TraceIds := ⟨"exp_1".toList, "session_ref_1".toList, "run_ref_1".toList⟩

def sampleUsed : BudgetUsed :=
  { inferenceSeconds := ⟨⟨"61.5".toList, by decide, List.all_eq_true.mp (by decide)⟩, by decide⟩
    llmCalls := 3, mainCalls := 2, subagentCalls := 1
    apiSpendUsd := ⟨⟨"0.0312".toList, by decide, List.all_eq_true.mp (by decide)⟩, by decide⟩ }

def stampAt (ts eventId : String) : TraceStamp := ⟨ts.toList, eventId.toList⟩

def sampleStamp : TraceStamp := stampAt "2026-01-05T09:00:00.000001+00:00" "event_0123456789ab"

/-- The failure the ledger holds of the run. -/
def sampleFailure : JsonObject :=
  [("record_type".toList, str "attempt_failed".toList), ("phase".toList, str "research".toList),
    ("run_id".toList, str "run_1".toList), ("error".toList, str "killed".toList)]

/-- One reply of the model, then the attempt dies. -/
def oneReply (payload : Payload) : List Event :=
  [.begin ⟨"run_1".toList, by decide, by decide⟩ sampleIds,
    .emit (.session ⟨.llmCall, by decide⟩ payload sampleUsed) sampleStamp sampleStamp,
    .fail sampleFailure none]

def shortReply : List Event := oneReply ⟨[("content".toList, str "done".toList)], by decide⟩

theorem shortReply_spend_kept : ∃ used,
    seededBudget sampleBuiltins id (Session.run traceLimits sampleBuiltins {} shortReply).traces
        (Session.run traceLimits sampleBuiltins {} shortReply).rows = .ok used ∧
      BudgetUsed.fromRecord sampleBuiltins
        (Session.run traceLimits sampleBuiltins {} shortReply).lastBlock = .ok used := by
  have heeds : Session.heedsAll traceLimits sampleBuiltins {} shortReply = true := by
    decide +kernel
  have idle : (Session.run traceLimits sampleBuiltins {} shortReply).live = none := by
    apply Option.isNone_iff_eq_none.mp
    decide +kernel
  have whole : (Session.run traceLimits sampleBuiltins {} shortReply).dropped = [] := by
    decide +kernel
  exact ((resume_keeps_spend id heeds).2 idle).1 whole

/-- A reply of so many characters. -/
def replyOf (n : Nat) : Payload :=
  ⟨[("content".toList, str (List.replicate n 'a'))],
    field_cons_of_ne (by decide) (str (List.replicate n 'a')) []⟩

def replyEmission (n : Nat) : Emission := .session ⟨.llmCall, by decide⟩ (replyOf n) sampleUsed

def replyRecord (n : Nat) : JsonObject :=
  Trace.traceRecord sampleIds.fields (replyEmission n).event
    ((replyEmission n).payload sampleBuiltins) sampleStamp

theorem payload_reply (n : Nat) : (replyEmission n).payload sampleBuiltins =
    (replyOf n).fields.setField "budget_used" (obj (sampleUsed.toRecord sampleBuiltins)) := rfl

theorem content_reply (n : Nat) :
    (replyRecord n).field "content" = some (str (List.replicate n 'a')) := by
  unfold replyRecord
  rw [Trace.field_traceRecord (by decide) (by decide), payload_reply,
    field_setField_of_ne (by decide)]
  exact field_cons_self _ _ _

theorem other_reply (stamped : key ∉ Trace.stampKeys)
    (named : key ∉ sampleIds.fields.map Prod.fst) (other : "budget_used" ≠ key)
    (content : "content" ≠ key) : (replyRecord n).field key = none := by
  unfold replyRecord
  rw [Trace.field_traceRecord stamped named, payload_reply, field_setField_of_ne other]
  exact field_cons_of_ne content _ _

theorem byteLength_replicate (n : Nat) :
    n ≤ byteLength (dumpString (List.replicate n 'a')) := by
  have body : byteLength ((List.replicate n 'a').flatMap escapeChar) = n := by
    induction n with
    | zero => rfl
    | succ n ih =>
      rw [List.replicate_succ, List.flatMap_cons, byteLength_append, ih]
      have one : byteLength (escapeChar 'a') = 1 := by decide
      omega
  unfold dumpString
  rw [byteLength_cons, byteLength_append, body]
  omega

theorem size_reply (n : Nat) : n ≤ byteLength (Trace.encodeLine (replyRecord n)) ∧
    byteLength (Trace.encodeLine (replyRecord n)) ≤ 6 * n + 2000 := by
  constructor
  · have part := Trace.fieldBytes_le_encodeLine (content_reply n)
    have text := byteLength_replicate n
    refine text.trans (le_trans ?_ part)
    unfold Trace.fieldBytes dumpField
    rw [byteLength_append, byteLength_cons, byteLength_cons]
    show byteLength (dumpString (List.replicate n 'a')) ≤ _
    rw [sortKeys_str, dumps]
    omega
  · have total := Trace.size_traceRecord (ids_plain sampleIds).1 (replyEmission n).event
      ((replyEmission n).payload sampleBuiltins) sampleStamp
    have payload := Trace.sum_setField_le (replyOf n).fields "budget_used"
      (obj (sampleUsed.toRecord sampleBuiltins))
    have stamps : Trace.bytesOf (Trace.stampFields sampleIds.fields .llmCall sampleStamp) ≤ 1000 := by
      decide +kernel
    have block : Trace.fieldBytes ("budget_used".toList,
        obj (sampleUsed.toRecord sampleBuiltins)) ≤ 500 := by decide +kernel
    have content := Trace.fieldBytes_str_le "content".toList (List.replicate n 'a')
    have key : "content".toList.length = 7 := rfl
    have whole : ((replyOf n).fields.map Trace.fieldBytes).sum =
        Trace.fieldBytes ("content".toList, str (List.replicate n 'a')) + 0 := rfl
    rw [payload_reply] at total
    rw [List.length_replicate, key] at content
    change byteLength (Trace.encodeLine (replyRecord n)) ≤ _ at total
    change _ ≤ 1 + _ + Trace.bytesOf (Trace.stampFields sampleIds.fields .llmCall sampleStamp) at total
    omega

theorem sized_reply (large : 262144 < n) (known : n ≤ 1000000) :
    ∃ record, Trace.sizedRecord traceLimits sampleBuiltins.render sampleIds.fields
      (replyEmission n).event ((replyEmission n).payload sampleBuiltins) sampleStamp =
        .ok record := by
  have limit : traceLimits.maxEventBytes = 262144 := rfl
  have stamps : Trace.bytesOf (Trace.stampFields sampleIds.fields .llmCall sampleStamp) ≤ 1000 := by
    decide +kernel
  have nulls : Trace.bytesOf (traceStubKeys.map fun key => (key, null)) ≤ 200 := by
    decide +kernel
  have total : Trace.bytesOf (Trace.stampFields sampleIds.fields .llmCall sampleStamp) +
      Trace.bytesOf (traceStubKeys.map fun key => (key, null)) + 241000 ≤
        traceLimits.maxEventBytes := by
    rw [limit]
    -- the closed sums stay folded: only their bounds are added
    exact (Nat.add_le_add_right (Nat.add_le_add stamps nulls) 241000).trans (by decide)
  obtain ⟨low, high⟩ := size_reply n
  have bytes : byteLength (Trace.encodeLine (replyRecord n)) < 10 ^ 9 := by omega
  have plain : ∀ key ∈ "error" :: traceStubKeys, key ∉ Trace.stampKeys ∧
      key ∉ sampleIds.fields.map Prod.fst ∧ "budget_used" ≠ key ∧ "content" ≠ key := by
    decide +kernel
  have none_ : ∀ key ∈ "error" :: traceStubKeys, (replyRecord n).field key = none := by
    intro key member
    obtain ⟨stamped, named, other, content⟩ := plain key member
    exact other_reply stamped named other content
  have keys : traceStubKeys.map (fun key => (key, ((replyRecord n).field key).getD null)) =
      traceStubKeys.map fun key => (key, null) := by
    apply List.map_congr_left
    intro key member
    rw [none_ key (List.mem_cons_of_mem _ member)]
    rfl
  have stub := Trace.size_stubRecord sampleBuiltins.render (ids_plain sampleIds).1
    (replyEmission n).event ((replyEmission n).payload sampleBuiltins) sampleStamp bytes
    (none_ "error" List.mem_cons_self)
  change _ ≤ Trace.bytesOf (Trace.stampFields sampleIds.fields .llmCall sampleStamp) +
    Trace.bytesOf (traceStubKeys.map fun key => (key, ((replyRecord n).field key).getD null)) +
      241000 at stub
  rw [keys] at stub
  have cut : traceLimits.maxEventBytes < byteLength (Trace.encodeLine (replyRecord n)) := by
    rw [limit]
    exact large.trans_le low
  exact ⟨_, Trace.sizedRecord_of_stub cut (le_trans stub total)⟩

theorem reply_spend_forgotten (large : 262144 < n) (known : n ≤ 1000000) :
    ∃ s : Session, Session.run traceLimits sampleBuiltins {} (oneReply (replyOf n)) = s ∧
      s.live = none ∧ s.dropped = [] ∧
      ∃ used used', seededBudget sampleBuiltins id s.traces s.rows = .ok used ∧
        BudgetUsed.fromRecord sampleBuiltins s.lastBlock = .ok used' ∧
        used.llmCalls = 0 ∧ used'.llmCalls = 3 := by
  obtain ⟨low, -⟩ := size_reply n
  obtain ⟨record, sized⟩ := sized_reply large known
  have limit : traceLimits.maxEventBytes = 262144 := rfl
  have cut : traceLimits.maxEventBytes < byteLength (Trace.encodeLine (replyRecord n)) := by
    rw [limit]
    omega
  have failure : isFailedAttempt sampleFailure = true := by decide
  obtain ⟨s, run, idle, whole, last, seeded⟩ := cut_spend_forgotten
    ⟨"run_1".toList, by decide, by decide⟩ sampleStamp id cut sized failure (by decide)
  have block : (replyEmission n).block sampleBuiltins =
      some (sampleUsed.toRecord sampleBuiltins) := rfl
  rw [block, Option.getD_some] at last
  refine ⟨s, run, idle, whole, {}, sampleUsed, seeded, ?_, rfl, rfl⟩
  rw [last, fromRecord_toRecord]
  rfl

/-- A reply of 300000 characters is cut down, and the next attempt starts its
    counters at zero. -/
theorem longReply_spend_forgotten :
    ∃ s : Session, Session.run traceLimits sampleBuiltins {} (oneReply (replyOf 300000)) = s ∧
      s.live = none ∧ s.dropped = [] ∧
      ∃ used used', seededBudget sampleBuiltins id s.traces s.rows = .ok used ∧
        BudgetUsed.fromRecord sampleBuiltins s.lastBlock = .ok used' ∧
        used.llmCalls = 0 ∧ used'.llmCalls = 3 :=
  reply_spend_forgotten (by omega) (by omega)

end AutoTrade.SessionResume
