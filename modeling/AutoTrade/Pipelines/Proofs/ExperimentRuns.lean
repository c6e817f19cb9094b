import AutoTrade.Pipelines.ExperimentRuns
import AutoTrade.Pipelines.Proofs.Ledger

/-!
# No run dies silently

Between two events a run that is not in flight has its terminal record, or has
left its marker and no record at all. A recovery turns the second into the first,
wherever it is cut short.
-/

namespace AutoTrade.ExperimentRuns

open Json JsonLines JsonObject

theorem mem_of_field {record : JsonObject} {key : String} {value : Json}
    (found : record.field key = some value) : (key.toList, value) ∈ record := by
  induction record with
  | nil => cases found
  | cons entry record ih =>
    rw [field_cons] at found
    split_ifs at found with here
    · rw [← here, ← Option.some.inj found]
      exact List.mem_cons_self
    · exact List.mem_cons_of_mem entry (ih found)

theorem truthy_str {t : Text} (filled : t ≠ []) : truthy (str t) = true := by
  cases t with
  | nil => exact absurd rfl filled
  | cons c rest => rfl

theorem truthy_fieldOr (record : JsonObject) (key : String) {default : Text}
    (filled : default ≠ []) : truthy (fieldOr record key default) = true := by
  unfold fieldOr
  split_ifs with held
  · unfold holds at held
    cases found : record.field key with
    | none =>
      rw [found] at held
      cases held
    | some value =>
      rw [found] at held
      exact held
  · exact truthy_str filled

theorem plain_fieldOr {record : JsonObject} (whole : breaksLine record = false) (key : String)
    {default : Text} (plain : default.any isRawBreak = false) :
    ∀ s ∈ strings (fieldOr record key default), s.any isRawBreak = false := by
  unfold fieldOr
  split_ifs
  · cases found : record.field key with
    | none => exact plain_strings_str plain
    | some value => exact (breaksLine_eq_false.mp whole _ (mem_of_field found)).2
  · exact plain_strings_str plain

/-- The fields of a marker, none when it cannot be read. -/
def markerFields : Except Text JsonObject → JsonObject
  | .ok fields => fields
  | .error _ => []

theorem recoverMarker_eq (name : Text) (rows : List JsonObject) (stem : Text)
    (marker : Except Text JsonObject) :
    recoverMarker name rows (stem, marker) =
      if markedRunId stem (markerFields marker) ∈ recordedRunIds rows then [.unlink stem]
      else [.record (interruptedRecord name stem marker), .unlink stem] := by
  cases marker <;> rfl

theorem interruptedRecord_eq (name stem : Text) (marker : Except Text JsonObject) :
    ∃ error, interruptedRecord name stem marker =
      ((((((markerFields marker).setField "record_type" (str "attempt_failed".toList)).setField
        "experiment_id" (fieldOr (markerFields marker) "experiment_id" name)).setField
        "epoch_id" (fieldOr (markerFields marker) "epoch_id" unknownMarkerLinkKey)).setField
        "fold_id" (fieldOr (markerFields marker) "fold_id" unknownMarkerLinkKey)).setField
        "run_id" (str (markedRunId stem (markerFields marker)))).setField "error" (str error) ∧
      (stem.any isRawBreak = false → (∀ reason, marker = .error reason →
        reason.any isRawBreak = false) → error.any isRawBreak = false) := by
  cases marker with
  | ok fields =>
    have fixed : interruptedRunError.any isRawBreak = false := by decide +kernel
    exact ⟨interruptedRunError, rfl, fun _ _ => fixed⟩
  | error reason =>
    refine ⟨_, rfl, fun plain unread => ?_⟩
    have fixed : (unreadableRunMarkerError ++ ": ".toList).any isRawBreak = false := by
      decide +kernel
    have suffix : ".json: ".toList.any isRawBreak = false := by decide
    rw [List.any_append, List.any_append, List.any_append, fixed, plain, suffix, unread reason rfl]
    rfl

theorem field_interruptedRecord (name stem : Text) (marker : Except Text JsonObject) :
    (interruptedRecord name stem marker).field "record_type" =
        some (str "attempt_failed".toList) ∧
      (interruptedRecord name stem marker).field "experiment_id" =
        some (fieldOr (markerFields marker) "experiment_id" name) ∧
      (interruptedRecord name stem marker).field "epoch_id" =
        some (fieldOr (markerFields marker) "epoch_id" unknownMarkerLinkKey) ∧
      (interruptedRecord name stem marker).field "fold_id" =
        some (fieldOr (markerFields marker) "fold_id" unknownMarkerLinkKey) ∧
      (interruptedRecord name stem marker).field "run_id" =
        some (str (markedRunId stem (markerFields marker))) ∧
      (interruptedRecord name stem marker).field "phase" =
        (markerFields marker).field "phase" := by
  obtain ⟨error, same, -⟩ := interruptedRecord_eq name stem marker
  rw [same]
  refine ⟨?_, ?_, ?_, ?_, ?_, ?_⟩ <;> simp only [field_setField, String.reduceEq, if_true, if_false]

theorem admitted_of_failed {file : Text} {record : JsonObject}
    (typed : isType record "attempt_failed" = true)
    (linked : ∀ key ∈ linkKeys, record.holds key = true) : Admitted file record where
  typed := .inr (.inr (.inr typed))
  linked := linked
  registration other := absurd (isType_inj other typed) (by decide)
  forward other := absurd (isType_inj other typed) (by decide)
  step other := absurd (isType_inj other typed) (by decide)

/-- The marker of a run, read back or not. -/
def MarkerOf (site : Site) (run : Run) : Except Text JsonObject → Prop
  | .ok fields => ∃ startedAt : Token,
      fields = (attempt site run).setField "started_at" (str startedAt.text)
  | .error reason => reason.any isRawBreak = false

theorem breaksLine_attempt (site : Site) (run : Run) : breaksLine (attempt site run) = false := by
  have staged : run.stage.key.any isRawBreak = false := by
    cases run.stage <;> decide
  rw [breaksLine_eq_false]
  simp only [attempt, List.forall_mem_cons, strings, List.mem_singleton, forall_eq,
    site.experimentId.plain, run.runId.plain, staged]
  decide

section

variable {site : Site} {run : Run} {marker : Except Text JsonObject}

theorem MarkerOf.whole (markerOf : MarkerOf site run marker) :
    breaksLine (markerFields marker) = false := by
  cases marker with
  | error reason => rfl
  | ok fields =>
    obtain ⟨startedAt, rfl⟩ := markerOf
    exact breaksLine_setField (breaksLine_attempt site run) (by decide)
      (plain_strings_str startedAt.plain)

theorem MarkerOf.runId (markerOf : MarkerOf site run marker) :
    markedRunId run.runId.text (markerFields marker) = run.runId.text := by
  cases marker with
  | error reason => rfl
  | ok fields =>
    obtain ⟨startedAt, rfl⟩ := markerOf
    have found : ((attempt site run).setField "started_at" (str startedAt.text)).field "run_id" =
        some (str run.runId.text) := by
      simp [field_setField, attempt, field_cons]
    show markedRunId _ _ = _
    unfold markedRunId markerFields
    rw [textField_eq found]
    exact if_neg run.runId.ne_nil

theorem MarkerOf.linked (markerOf : MarkerOf site run marker) :
    ∀ key ∈ linkKeys,
      (interruptedRecord site.directory.text run.runId.text marker).holds key = true := by
  obtain ⟨-, experiment, epoch, fold, runId, -⟩ :=
    field_interruptedRecord site.directory.text run.runId.text marker
  have unknown : unknownMarkerLinkKey ≠ [] := by decide
  intro key member
  unfold holds
  simp only [linkKeys, List.mem_cons, List.not_mem_nil, or_false] at member
  rcases member with rfl | rfl | rfl | rfl
  · rw [experiment]
    exact truthy_fieldOr _ _ site.directory.ne_nil
  · rw [epoch]
    exact truthy_fieldOr _ _ unknown
  · rw [fold]
    exact truthy_fieldOr _ _ unknown
  · rw [runId, markerOf.runId]
    exact truthy_str run.runId.ne_nil

theorem MarkerOf.plain (markerOf : MarkerOf site run marker) :
    breaksLine (interruptedRecord site.directory.text run.runId.text marker) = false := by
  obtain ⟨error, same, plain⟩ :=
    interruptedRecord_eq site.directory.text run.runId.text marker
  have unknown : unknownMarkerLinkKey.any isRawBreak = false := by decide
  have failed : "attempt_failed".toList.any isRawBreak = false := by decide
  have unread : ∀ reason, marker = .error reason → reason.any isRawBreak = false := by
    rintro reason rfl
    exact markerOf
  rw [same, markerOf.runId]
  apply breaksLine_setField _ (by decide) (plain_strings_str (plain run.runId.plain unread))
  apply breaksLine_setField _ (by decide) (plain_strings_str run.runId.plain)
  apply breaksLine_setField _ (by decide) (plain_fieldOr markerOf.whole _ unknown)
  apply breaksLine_setField _ (by decide) (plain_fieldOr markerOf.whole _ unknown)
  apply breaksLine_setField _ (by decide) (plain_fieldOr markerOf.whole _ site.directory.plain)
  exact breaksLine_setField markerOf.whole (by decide) (plain_strings_str failed)

theorem MarkerOf.recorded (markerOf : MarkerOf site run marker) {ledger : Text}
    (recordedAt : Text) :
    appendLedger ledger (interruptedRecord site.directory.text run.runId.text marker) recordedAt =
      .ok (appendVersionedJsonl ledger
        (interruptedRecord site.directory.text run.runId.text marker) recordedAt) := by
  have typed := isType_iff.mpr
    (field_interruptedRecord site.directory.text run.runId.text marker).1
  exact appendLedger_eq_ok.mpr ⟨admitted_of_failed typed markerOf.linked, rfl⟩

end

/-- No record is under the run id. -/
def Unrecorded (rows : List JsonObject) (runId : Text) : Prop :=
  ∀ row ∈ rows, row.textField "run_id" ≠ some runId

theorem Unrecorded.terminalRows {rows : List JsonObject} {runId : Text}
    (unrecorded : Unrecorded rows runId) : terminalRows rows runId = [] := by
  apply List.filter_eq_nil_iff.mpr
  intro row member ends
  have under := (Bool.and_eq_true_iff.mp ends).1
  exact unrecorded row member (of_decide_eq_true under)

theorem unrecorded_append {rows : List JsonObject} {row : JsonObject} {runId : Text} :
    Unrecorded (rows ++ [row]) runId ↔
      Unrecorded rows runId ∧ row.textField "run_id" ≠ some runId := by
  unfold Unrecorded
  simp only [List.forall_mem_append, List.forall_mem_singleton]

theorem mem_recordedRunIds {rows : List JsonObject} {runId : Text} (filled : runId ≠ []) :
    runId ∈ recordedRunIds rows ↔ ¬ Unrecorded rows runId := by
  unfold recordedRunIds Unrecorded
  rw [List.mem_filter, List.mem_filterMap]
  push Not
  constructor
  · rintro ⟨found, -⟩
    exact found
  · intro found
    exact ⟨found, decide_eq_true filled⟩

theorem terminalRows_append (rows : List JsonObject) (row : JsonObject) (runId : Text) :
    terminalRows (rows ++ [row]) runId =
      terminalRows rows runId ++
        if row.textField "run_id" = some runId ∧ isTerminal row = true then [row] else [] := by
  unfold terminalRows
  rw [List.filter_append, List.filter_singleton]
  by_cases under : row.textField "run_id" = some runId <;>
    cases isTerminal row <;> simp [under]

theorem terminalRows_other {rows : List JsonObject} {row : JsonObject} {runId : Text}
    (other : row.textField "run_id" ≠ some runId) :
    terminalRows (rows ++ [row]) runId = terminalRows rows runId := by
  rw [terminalRows_append, if_neg fun under => other under.1, List.append_nil]

/-- A run out of flight: it has its record, or nothing but its marker. -/
def Accounted (x : Experiment) (rows : List JsonObject) (runId : Text) : Prop :=
  (terminalRows rows runId).length = 1 ∨
    Unrecorded rows runId ∧ (x.markers.get? runId).isSome = true

/-- A run in flight: nothing ends it before its record does. -/
structure InFlight (x : Experiment) (rows : List JsonObject) (live : LiveRun) : Prop where
  begun : live.run ∈ x.begun
  marked : (x.markers.get? live.run.runId.text).isSome = true
  wrote : live.wroteLedgerRecord = true → (terminalRows rows live.run.runId.text).length = 1
  open_ : live.wroteLedgerRecord = false → terminalRows rows live.run.runId.text = []
  fresh : live.wroteLedgerRecord = false → live.stepped = false →
    Unrecorded rows live.run.runId.text

structure Kept (site : Site) (x : Experiment) (rows : List JsonObject) : Prop where
  readable : Readable x.ledger rows
  distinct : (x.begun.map fun run => run.runId.text).Nodup
  owned : ∀ row ∈ rows, ∃ run ∈ x.begun, row.textField "run_id" = some run.runId.text
  marked : ∀ stem marker, x.markers.get? stem = some marker →
    ∃ run ∈ x.begun, run.runId.text = stem ∧ MarkerOf site run marker
  inFlight : ∀ live, x.live = some live → InFlight x rows live
  accounted : ∀ run ∈ x.begun, (∀ live, x.live = some live →
    live.run.runId.text ≠ run.runId.text) → Accounted x rows run.runId.text

theorem kept_start (site : Site) : Kept site {} [] where
  readable := readable_nil
  distinct := List.nodup_nil
  owned row absurd := by cases absurd
  marked stem marker absurd := by cases absurd
  inFlight live absurd := by cases absurd
  accounted run absurd := by cases absurd

section

variable {site : Site} {x : Experiment} {rows : List JsonObject}

theorem Kept.unbegun (kept : Kept site x rows) {runId : Text}
    (fresh : runId ∉ x.begun.map fun other => other.runId.text) : Unrecorded rows runId := by
  intro row member under
  obtain ⟨run, begun, owner⟩ := kept.owned row member
  rw [owner] at under
  exact fresh (List.mem_map.mpr ⟨run, begun, Option.some.inj under⟩)

theorem beginRun_attempt (site : Site) (run : Run) (markers : RunMarkers) (startedAt : Text) :
    beginRun markers (attempt site run) run.runId.text startedAt =
      .ok (markers.set run.runId.text
        (.ok ((attempt site run).setField "started_at" (str startedAt)))) := by
  have staged : run.stage.key ≠ [] := by
    cases run.stage <;> decide
  have linked : (linkKeys.all fun key => (attempt site run).holds key) = true := by
    rw [List.all_eq_true]
    intro key member
    simp only [linkKeys, List.mem_cons, List.not_mem_nil, or_false] at member
    rcases member with rfl | rfl | rfl | rfl
    · exact holds_of_field (by simp [attempt, field_cons]) site.experimentId.ne_nil
    · exact holds_of_field (by simp [attempt, field_cons]) staged
    · exact holds_of_field (by simp [attempt, field_cons]) staged
    · exact holds_of_field (by simp [attempt, field_cons]) run.runId.ne_nil
  unfold beginRun
  exact if_pos linked

theorem Kept.begin (kept : Kept site x rows) (run : Run) (startedAt : Token) :
    Kept site (x.begin site run startedAt) rows := by
  unfold Experiment.begin
  split_ifs with busy
  · exact kept
  · obtain ⟨idle, fresh⟩ := not_or.mp busy
    have noLive : x.live = none := by simpa using idle
    have unrecorded := kept.unbegun fresh
    rw [beginRun_attempt]
    refine ⟨kept.readable, ?_, fun row member => ?_, fun stem marker found => ?_,
      fun live same => ?_, fun other member apart => ?_⟩
    · show ((x.begun ++ [run]).map fun run => run.runId.text).Nodup
      rw [List.map_append, List.map_singleton]
      apply List.Nodup.append kept.distinct (List.nodup_singleton _)
      rw [List.disjoint_singleton]
      exact fresh
    · obtain ⟨owner, begun, under⟩ := kept.owned row member
      exact ⟨owner, List.mem_append_left _ begun, under⟩
    · rw [Dict.get?_set] at found
      split_ifs at found with here
      · refine ⟨run, List.mem_append_right _ (List.mem_singleton_self run), here, ?_⟩
        rw [← Option.some.inj found]
        exact ⟨startedAt, rfl⟩
      · obtain ⟨owner, begun, named, markerOf⟩ := kept.marked stem marker found
        exact ⟨owner, List.mem_append_left _ begun, named, markerOf⟩
    · rw [← Option.some.inj same]
      refine ⟨List.mem_append_right _ (List.mem_singleton_self run), ?_, fun absurd => ?_,
        fun _ => unrecorded.terminalRows, fun _ _ => unrecorded⟩
      · show ((x.markers.set _ _).get? _).isSome = true
        rw [Dict.get?_set_self]
        rfl
      · cases absurd
    · have different : run.runId.text ≠ other.runId.text := apart _ rfl
      have old : other ∈ x.begun := by
        rcases List.mem_append.mp member with old | new
        · exact old
        · rw [List.mem_singleton.mp new] at different
          exact absurd rfl different
      have before := kept.accounted other old fun live absurd => by
        rw [noLive] at absurd
        cases absurd
      unfold Accounted
      rw [Dict.get?_set_of_ne _ _ different]
      exact before

theorem Accounted.other {x' : Experiment} {row : JsonObject} {runId : Text}
    (accounted : Accounted x rows runId) (other : row.textField "run_id" ≠ some runId)
    (same : x'.markers.get? runId = x.markers.get? runId) :
    Accounted x' (rows ++ [row]) runId := by
  unfold Accounted
  rw [terminalRows_other other, unrecorded_append, same]
  rcases accounted with once | ⟨unrecorded, left⟩
  · exact .inl once
  · exact .inr ⟨⟨unrecorded, other⟩, left⟩

theorem isTerminal_of_admitted {file : Text} {record : JsonObject}
    (admitted : Admitted file record) (notStep : isType record "test_step" = false) :
    isTerminal record = true := by
  unfold isTerminal
  rcases admitted.typed with session | step | forward | failed
  · rw [session]
    rfl
  · rw [step] at notStep
    cases notStep
  · rw [forward, Bool.or_true]
    rfl
  · rw [failed, Bool.or_true]

theorem Kept.append (kept : Kept site x rows) {record : JsonObject}
    (whole : breaksLine record = false) (recordedAt : Token) :
    ∃ rows', Kept site (x.append record recordedAt) rows' := by
  unfold Experiment.append
  cases inFlight : x.live with
  | none => exact ⟨rows, kept⟩
  | some live =>
    dsimp only
    split_ifs with refused
    · exact ⟨rows, kept⟩
    · cases appended : appendLedger x.ledger record recordedAt.text with
      | error e => exact ⟨rows, kept⟩
      | ok ledger =>
        obtain ⟨admitted, rfl⟩ := appendLedger_eq_ok.mp appended
        obtain ⟨open_, under⟩ := not_or.mp refused
        have running := kept.inFlight live inFlight
        have notYet : live.wroteLedgerRecord = false := by simpa using open_
        have named : (stamped record recordedAt.text).textField "run_id" =
            some live.run.runId.text := by
          apply textField_eq
          rw [field_stamped (by decide) (by decide)]
          exact not_not.mp under
        have ends : isTerminal (stamped record recordedAt.text) = isTerminal record := by
          unfold isTerminal
          rw [isType_stamped, isType_stamped, isType_stamped]
        have before := running.open_ notYet
        refine ⟨_, kept.readable.append whole recordedAt.plain, kept.distinct,
          fun row member => ?_, kept.marked, fun live' same => ?_, fun other member apart => ?_⟩
        · rcases List.mem_append.mp member with old | new
          · exact kept.owned row old
          · rw [List.mem_singleton.mp new]
            exact ⟨live.run, running.begun, named⟩
        · rw [← Option.some.inj same]
          refine ⟨running.begun, running.marked, fun terminal => ?_, fun goesOn => ?_,
            fun goesOn fresh => ?_⟩
          · rw [terminalRows_append, before, ends, if_pos ⟨named, terminal⟩]
            rfl
          · have notEnd : isTerminal record = false := goesOn
            rw [terminalRows_append, before, ends, notEnd]
            simp
          · have notEnd : isTerminal record = false := goesOn
            have noStep : isType record "test_step" = false := (Bool.or_eq_false_iff.mp fresh).2
            rw [isTerminal_of_admitted admitted noStep] at notEnd
            cases notEnd
        · have different := apart _ rfl
          have old := kept.accounted other member fun live' same => by
            rw [inFlight] at same
            rw [← Option.some.inj same]
            exact different
          apply old.other _ rfl
          rw [named]
          exact fun same => different (Option.some.inj same)

theorem Kept.stop (kept : Kept site x rows) {markers : RunMarkers}
    (left : ∀ stem marker, markers.get? stem = some marker → x.markers.get? stem = some marker)
    (others : ∀ run ∈ x.begun, (∀ live, x.live = some live →
      live.run.runId.text ≠ run.runId.text) →
      markers.get? run.runId.text = x.markers.get? run.runId.text)
    (stopped : ∀ live, x.live = some live →
      Accounted { x with markers, live := none } rows live.run.runId.text) :
    Kept site { x with markers, live := none } rows where
  readable := kept.readable
  distinct := kept.distinct
  owned := kept.owned
  marked stem marker found := kept.marked stem marker (left stem marker found)
  inFlight live absurd := by cases absurd
  accounted run member _ := by
    by_cases apart : ∀ live, x.live = some live → live.run.runId.text ≠ run.runId.text
    · have before := kept.accounted run member apart
      unfold Accounted at before ⊢
      rw [others run member apart]
      exact before
    · push Not at apart
      obtain ⟨live, inFlight, same⟩ := apart
      rw [← same]
      exact stopped live inFlight

theorem Kept.finish (kept : Kept site x rows) : Kept site x.finish rows := by
  unfold Experiment.finish
  cases inFlight : x.live with
  | none => exact kept
  | some live =>
    dsimp only
    split_ifs with wrote
    · have running := kept.inFlight live inFlight
      apply kept.stop
      · intro stem marker found
        unfold finishRun at found
        rw [Dict.get?_erase] at found
        split_ifs at found
        exact found
      · intro run member apart
        unfold finishRun
        rw [Dict.get?_erase, if_neg (apart live inFlight)]
      · intro live' same
        rw [inFlight] at same
        rw [← Option.some.inj same]
        exact .inl (running.wrote wrote)
    · exact kept

theorem Kept.kill (kept : Kept site x rows)
    (safe : ∀ live, x.live = some live → live.wroteLedgerRecord = false → live.stepped = false) :
    Kept site { x with live := none } rows := by
  apply kept.stop (fun _ _ found => found) (fun _ _ _ => rfl)
  intro live inFlight
  have running := kept.inFlight live inFlight
  cases wrote : live.wroteLedgerRecord with
  | true => exact .inl (running.wrote wrote)
  | false => exact .inr ⟨running.fresh wrote (safe live inFlight wrote), running.marked⟩

theorem Kept.tear (kept : Kept site x rows) (stem : Text) (reason : Token) :
    Kept site (x.tear stem reason) rows := by
  unfold Experiment.tear
  split_ifs with present
  · have marks : ∀ stem', ((x.markers.set stem (.error reason.text)).get? stem').isSome =
        (x.markers.get? stem').isSome := by
      intro stem'
      rw [Dict.get?_set]
      split_ifs with here
      · rw [← here, present]
        rfl
      · rfl
    refine ⟨kept.readable, kept.distinct, kept.owned, fun stem' marker found => ?_,
      fun live same => ?_, fun run member apart => ?_⟩
    · rw [Dict.get?_set] at found
      split_ifs at found with here
      · obtain ⟨old, before⟩ := Option.isSome_iff_exists.mp present
        obtain ⟨run, begun, named, -⟩ := kept.marked stem old before
        refine ⟨run, begun, named.trans here, ?_⟩
        rw [← Option.some.inj found]
        exact reason.plain
      · exact kept.marked stem' marker found
    · have running := kept.inFlight live same
      exact ⟨running.begun, (marks _).trans running.marked, running.wrote, running.open_,
        running.fresh⟩
    · unfold Accounted
      rw [marks]
      exact kept.accounted run member apart
  · exact kept

theorem Kept.record (kept : Kept site x rows) (idle : x.live = none) {run : Run}
    {marker : Except Text JsonObject} (begun : run ∈ x.begun)
    (markerOf : MarkerOf site run marker) (unrecorded : Unrecorded rows run.runId.text)
    (recordedAt : Token) :
    Kept site
      { x with
        ledger := appendVersionedJsonl x.ledger
          (interruptedRecord site.directory.text run.runId.text marker) recordedAt.text }
      (rows ++ [stamped (interruptedRecord site.directory.text run.runId.text marker)
        recordedAt.text]) := by
  obtain ⟨typed, -, -, -, under, -⟩ :=
    field_interruptedRecord site.directory.text run.runId.text marker
  generalize record : interruptedRecord site.directory.text run.runId.text marker = interrupted
    at typed under ⊢
  rw [markerOf.runId] at under
  have named : (stamped interrupted recordedAt.text).textField "run_id" = some run.runId.text := by
    apply textField_eq
    rw [field_stamped (by decide) (by decide)]
    exact under
  have ends : isTerminal (stamped interrupted recordedAt.text) = true := by
    unfold isTerminal
    rw [isType_stamped, isType_stamped, isType_stamped, isType_iff.mpr typed, Bool.or_true]
  refine ⟨kept.readable.append (record ▸ markerOf.plain) recordedAt.plain, kept.distinct,
    fun row member => ?_, kept.marked, fun live absurd => ?_, fun other member _ => ?_⟩
  · rcases List.mem_append.mp member with old | new
    · exact kept.owned row old
    · rw [List.mem_singleton.mp new]
      exact ⟨run, begun, named⟩
  · have none_ : some live = none := absurd.symm.trans idle
    cases none_
  · by_cases same : run.runId.text = other.runId.text
    · apply Or.inl
      rw [← same, terminalRows_append, unrecorded.terminalRows, if_pos ⟨named, ends⟩]
      rfl
    · have before := kept.accounted other member fun live absurd => by
        rw [idle] at absurd
        cases absurd
      apply before.other _ rfl
      rw [named]
      exact fun equal => same (Option.some.inj equal)

theorem Kept.unlink (kept : Kept site x rows) (idle : x.live = none) {stem : Text}
    (recorded : ¬ Unrecorded rows stem) :
    Kept site { x with markers := finishRun x.markers stem } rows := by
  have dropped : ∀ stem', (finishRun x.markers stem).get? stem' =
      if stem = stem' then none else x.markers.get? stem' := Dict.get?_erase x.markers stem
  refine ⟨kept.readable, kept.distinct, kept.owned, fun stem' marker found => ?_,
    fun live absurd => ?_, fun run member _ => ?_⟩
  · rw [dropped] at found
    split_ifs at found
    exact kept.marked stem' marker found
  · have none_ : some live = none := absurd.symm.trans idle
    cases none_
  · have before := kept.accounted run member fun live absurd => by
      rw [idle] at absurd
      cases absurd
    rcases before with once | ⟨unrecorded, left⟩
    · exact .inl once
    · refine .inr ⟨unrecorded, ?_⟩
      rw [dropped, if_neg ?_]
      · exact left
      · intro same
        exact recorded (same ▸ unrecorded)

/-- What a recovery leaves, wherever it is cut short. -/
structure Recovered (site : Site) (x x' : Experiment) (rows rows' : List JsonObject) : Prop where
  kept : Kept site x' rows'
  begun : x'.begun = x.begun
  idle : x'.live = none
  grown : rows <+: rows'

/-- It went through all these markers. -/
structure Completed (site : Site) (x x' : Experiment) (recordedAt : Token)
    (entries : List (Text × Except Text JsonObject)) (rows rows' : List JsonObject) : Prop where
  dropped : ∀ stem, x'.markers.get? stem =
    if stem ∈ entries.map Prod.fst then none else x.markers.get? stem
  recorded : ∀ entry ∈ entries, Unrecorded rows entry.1 →
    stamped (interruptedRecord site.directory.text entry.1 entry.2) recordedAt.text ∈ rows'

theorem Kept.recover {read : List JsonObject} (recordedAt : Token)
    {entries : List (Text × Except Text JsonObject)} (distinct : (entries.map Prod.fst).Nodup)
    {writes : List RecoveryWrite}
    (cut : writes <+: entries.flatMap (recoverMarker site.directory.text read))
    (kept : Kept site x rows) (idle : x.live = none)
    (present : ∀ entry ∈ entries, x.markers.get? entry.1 = some entry.2)
    (unchanged : ∀ entry ∈ entries, entry.1 ∈ recordedRunIds read ↔ ¬ Unrecorded rows entry.1) :
    ∃ rows', Recovered site x (x.recover recordedAt writes) rows rows' ∧
      (writes = entries.flatMap (recoverMarker site.directory.text read) →
        Completed site x (x.recover recordedAt writes) recordedAt entries rows rows') := by
  induction entries generalizing x rows writes with
  | nil =>
    rw [List.flatMap_nil, List.prefix_nil] at cut
    rw [cut]
    refine ⟨rows, ⟨kept, rfl, idle, List.prefix_rfl⟩, fun _ => ⟨fun stem => ?_, ?_⟩⟩
    · rfl
    · intro entry absurd
      cases absurd
  | cons entry entries ih =>
    cases entry with | mk stem marker
    obtain ⟨run, begun, rfl, markerOf⟩ := kept.marked stem marker (present _ List.mem_cons_self)
    rw [List.map_cons, List.nodup_cons] at distinct
    have others : ∀ entry ∈ entries, run.runId.text ≠ entry.1 := by
      intro entry member same
      exact distinct.1 (List.mem_map.mpr ⟨entry, member, same.symm⟩)
    have known := unchanged _ List.mem_cons_self
    rw [List.flatMap_cons, recoverMarker_eq, markerOf.runId] at cut ⊢
    generalize entries.flatMap (recoverMarker site.directory.text read) = rest at cut ih ⊢
    -- once the run has its record, the marker goes and the other markers follow
    have goOn : ∀ {ledger : Text} {rows₁ : List JsonObject} {writes' : List RecoveryWrite},
        Kept site { x with ledger } rows₁ → rows <+: rows₁ →
        ¬ Unrecorded rows₁ run.runId.text →
        (∀ entry ∈ entries, Unrecorded rows₁ entry.1 ↔ Unrecorded rows entry.1) →
        (Unrecorded rows run.runId.text →
          stamped (interruptedRecord site.directory.text run.runId.text marker) recordedAt.text ∈
            rows₁) →
        writes' <+: rest →
        ∃ rows', Recovered site x ({ x with ledger }.recover recordedAt
            (.unlink run.runId.text :: writes')) rows rows' ∧
          (writes' = rest → Completed site x ({ x with ledger }.recover recordedAt
            (.unlink run.runId.text :: writes')) recordedAt ((run.runId.text, marker) :: entries)
            rows rows') := by
      intro ledger rows₁ writes' kept₁ grown recorded same wrote cut'
      have kept₂ := kept₁.unlink idle recorded
      have dropped : ∀ stem', (finishRun x.markers run.runId.text).get? stem' =
          if run.runId.text = stem' then none else x.markers.get? stem' :=
        Dict.get?_erase x.markers run.runId.text
      obtain ⟨rows', recovered, complete⟩ := ih distinct.2 cut' kept₂ idle
        (fun entry member => by
          rw [dropped, if_neg (others entry member)]
          exact present entry (List.mem_cons_of_mem _ member))
        (fun entry member => by
          rw [same entry member]
          exact unchanged entry (List.mem_cons_of_mem _ member))
      refine ⟨rows', ⟨recovered.kept, recovered.begun, recovered.idle,
        grown.trans recovered.grown⟩, fun whole => ?_⟩
      have completed := complete whole
      refine ⟨fun stem' => ?_, fun entry member unrecorded => ?_⟩
      · refine (completed.dropped stem').trans ?_
        rw [List.map_cons, dropped]
        by_cases here : run.runId.text = stem'
        · rw [if_pos here, ite_self, if_pos (here ▸ List.mem_cons_self)]
        · have apart : stem' ∈ run.runId.text :: entries.map Prod.fst ↔
              stem' ∈ entries.map Prod.fst := by
            rw [List.mem_cons, or_iff_right (Ne.symm here)]
          rw [if_neg here]
          simp only [apart]
      · rcases List.mem_cons.mp member with rfl | later
        · exact recovered.grown.subset (wrote unrecorded)
        · exact completed.recorded entry later ((same entry later).mpr unrecorded)
    by_cases recorded : run.runId.text ∈ recordedRunIds read
    · rw [if_pos recorded, List.singleton_append] at cut ⊢
      rcases List.prefix_cons_iff.mp cut with rfl | ⟨writes', rfl, cut'⟩
      · refine ⟨rows, ⟨kept, rfl, idle, List.prefix_rfl⟩, fun absurd => ?_⟩
        cases absurd
      · obtain ⟨rows', recovered, complete⟩ := goOn kept List.prefix_rfl (known.mp recorded)
          (fun _ _ => Iff.rfl) (fun unrecorded => absurd unrecorded (known.mp recorded)) cut'
        exact ⟨rows', recovered, fun whole => complete (List.cons.inj whole).2⟩
    · have unrecorded : Unrecorded rows run.runId.text :=
        not_not.mp fun recorded' => recorded (known.mpr recorded')
      have kept₁ := kept.record idle begun markerOf unrecorded recordedAt
      have appended : appendLedger x.ledger _ recordedAt.text = _ :=
        markerOf.recorded recordedAt.text
      obtain ⟨-, -, -, -, under, -⟩ :=
        field_interruptedRecord site.directory.text run.runId.text marker
      have named : (stamped (interruptedRecord site.directory.text run.runId.text marker)
          recordedAt.text).textField "run_id" = some run.runId.text := by
        apply textField_eq
        rw [field_stamped (by decide) (by decide), under, markerOf.runId]
      rw [if_neg recorded, List.cons_append, List.singleton_append] at cut ⊢
      rcases List.prefix_cons_iff.mp cut with rfl | ⟨writes', rfl, cut'⟩
      · refine ⟨rows, ⟨kept, rfl, idle, List.prefix_rfl⟩, fun absurd => ?_⟩
        cases absurd
      · unfold Experiment.recover
        rw [appended]
        dsimp only
        rcases List.prefix_cons_iff.mp cut' with rfl | ⟨writes'', rfl, cut''⟩
        · refine ⟨_, ⟨kept₁, rfl, idle, List.prefix_append _ _⟩, fun absurd => ?_⟩
          cases (List.cons.inj absurd).2
        · obtain ⟨rows', recovered, complete⟩ := goOn kept₁ (List.prefix_append _ _)
            (fun none_ => (unrecorded_append.mp none_).2 named)
            (fun entry member => by
              rw [unrecorded_append, named]
              refine and_iff_left ?_
              exact fun same => others entry member (Option.some.inj same))
            (fun _ => List.mem_append_right _ (List.mem_singleton_self _)) cut''
          exact ⟨rows', recovered, fun whole =>
            complete (List.cons.inj (List.cons.inj whole).2).2⟩

theorem recoveryWrites_eq (name : Text) (read : List JsonObject) (markers : RunMarkers) :
    ∃ entries : List (Text × Except Text JsonObject), entries.Perm markers.entries ∧
      recoveryWrites name read markers = entries.flatMap (recoverMarker name read) :=
  ⟨_, List.perm_insertionSort _ _, rfl⟩

theorem Kept.restart (kept : Kept site x rows) (recordedAt : Token) (killedAfter : Option Nat) :
    ∃ rows', Kept site (x.restart site recordedAt killedAfter) rows' ∧
      (x.live = none → (x.restart site recordedAt killedAfter).begun = x.begun ∧
        (x.restart site recordedAt killedAfter).live = none) ∧
      (x.live = none → killedAfter = none →
        Completed site x (x.restart site recordedAt killedAfter) recordedAt x.markers.entries
          rows rows') := by
  unfold Experiment.restart
  cases inFlight : x.live with
  | some live =>
    rw [if_pos (Option.isSome_some)]
    refine ⟨rows, kept, fun absurd => ?_, fun absurd => ?_⟩
    · cases absurd
    · cases absurd
  | none =>
    rw [if_neg (by decide), kept.readable.read]
    dsimp only
    obtain ⟨entries, sorted, writes⟩ := recoveryWrites_eq site.directory.text rows x.markers
    rw [writes]
    have recovers : ∀ written, written <+:
        entries.flatMap (recoverMarker site.directory.text rows) →
        ∃ rows', Recovered site x (x.recover recordedAt written) rows rows' ∧
          (written = entries.flatMap (recoverMarker site.directory.text rows) →
            Completed site x (x.recover recordedAt written) recordedAt entries rows rows') :=
      fun written cut => kept.recover recordedAt
        ((sorted.map Prod.fst).nodup_iff.mpr x.markers.nodup) cut inFlight
        (fun entry member => Dict.mem_entries_iff.mp (sorted.subset member))
        (fun entry member => by
          obtain ⟨run, -, named, -⟩ :=
            kept.marked entry.1 entry.2 (Dict.mem_entries_iff.mp (sorted.subset member))
          rw [mem_recordedRunIds (named ▸ run.runId.ne_nil)])
    cases killedAfter with
    | some n =>
      obtain ⟨rows', recovered, -⟩ := recovers _ (List.take_prefix n _)
      refine ⟨rows', recovered.kept, fun _ => ⟨recovered.begun, recovered.idle⟩, fun _ absurd => ?_⟩
      cases absurd
    | none =>
      obtain ⟨rows', recovered, complete⟩ := recovers _ List.prefix_rfl
      have completed := complete rfl
      refine ⟨rows', recovered.kept, fun _ => ⟨recovered.begun, recovered.idle⟩, fun _ _ => ?_⟩
      refine ⟨fun stem => ?_,
        fun entry member => completed.recorded entry (sorted.symm.subset member)⟩
      rw [completed.dropped stem]
      simp only [(sorted.map Prod.fst).mem_iff]

end

/-- No run is killed between its first test step and its record, and no text that
    breaks the ledger's line is recorded. -/
def Experiment.heeds (x : Experiment) : Event → Bool
  | .kill => x.live.all fun live => live.wroteLedgerRecord || !live.stepped
  | .append record _ => !breaksLine record
  | _ => true

def Experiment.heedsAll (site : Site) (x : Experiment) : List Event → Bool
  | [] => true
  | event :: events => x.heeds event && (x.step site event).heedsAll site events

theorem Kept.step {site : Site} {x : Experiment} {rows : List JsonObject} (kept : Kept site x rows)
    {event : Event} (heeds : x.heeds event = true) : ∃ rows', Kept site (x.step site event) rows' := by
  cases event with
  | begin run startedAt => exact ⟨rows, kept.begin run startedAt⟩
  | append record recordedAt =>
    have whole : breaksLine record = false := by simpa [Experiment.heeds] using heeds
    exact kept.append whole recordedAt
  | finish => exact ⟨rows, kept.finish⟩
  | kill =>
    refine ⟨rows, kept.kill fun live inFlight open_ => ?_⟩
    unfold Experiment.heeds at heeds
    rw [inFlight, Option.all_some, open_] at heeds
    simpa using heeds
  | tear stem reason => exact ⟨rows, kept.tear stem reason⟩
  | restart recordedAt killedAfter =>
    obtain ⟨rows', kept', -⟩ := kept.restart recordedAt killedAfter
    exact ⟨rows', kept'⟩

theorem Kept.run {site : Site} {x : Experiment} {rows : List JsonObject} (kept : Kept site x rows)
    {events : List Event} (heeds : x.heedsAll site events = true) :
    ∃ rows', Kept site (x.run site events) rows' := by
  induction events generalizing x rows with
  | nil => exact ⟨rows, kept⟩
  | cons event events ih =>
    obtain ⟨here, later⟩ := Bool.and_eq_true_iff.mp heeds
    obtain ⟨rows', kept'⟩ := kept.step here
    exact ih kept' later

/-- What a recovery that is not cut short makes of the runs that began. -/
structure Audited (site : Site) (x : Experiment) (recordedAt : Token) : Prop where
  unmarked : (x.restart site recordedAt none).markers = .empty
  /-- Every begun run has exactly one terminal record. -/
  once : ∃ rows, readVersionedJsonl (x.restart site recordedAt none).ledger = .ok rows ∧
    ∀ run ∈ x.begun, (terminalRows rows run.runId.text).length = 1
  /-- A research run that was killed has a failed attempt to resume from. -/
  resumed : ∀ run ∈ x.begun, run.stage = .research →
    (∃ fields, x.markers.get? run.runId.text = some (.ok fields)) →
    (∃ rows, readVersionedJsonl x.ledger = .ok rows ∧ terminalRows rows run.runId.text = []) →
    ∃ rows, readVersionedJsonl (x.restart site recordedAt none).ledger = .ok rows ∧
      ∃ row ∈ failedResearchAttempts rows, row.textField "run_id" = some run.runId.text

theorem Kept.audited {site : Site} {x : Experiment} {rows : List JsonObject}
    (kept : Kept site x rows) (idle : x.live = none) (recordedAt : Token) :
    Audited site x recordedAt := by
  obtain ⟨rows', kept', same, complete⟩ := kept.restart recordedAt none
  obtain ⟨begun, idle'⟩ := same idle
  have completed := complete idle rfl
  have gone : ∀ stem, (x.restart site recordedAt none).markers.get? stem = none := by
    intro stem
    rw [completed.dropped]
    split_ifs with listed
    · rfl
    · exact Dict.get?_eq_none_iff.mpr listed
  have alone : ∀ {y : Experiment}, y.live = none → ∀ run : Run, ∀ live, y.live = some live →
      live.run.runId.text ≠ run.runId.text := by
    intro y noLive run live absurd
    rw [noLive] at absurd
    cases absurd
  refine ⟨?_, ⟨rows', kept'.readable.read, fun run member => ?_⟩, ?_⟩
  · apply Dict.ext
    apply List.eq_nil_iff_forall_not_mem.mpr
    intro entry member
    have found := Dict.mem_entries_iff.mp (show (entry.1, entry.2) ∈ _ from member)
    rw [gone] at found
    cases found
  · rcases kept'.accounted run (begun ▸ member) (alone idle' run) with once | ⟨-, left⟩
    · exact once
    · rw [gone] at left
      cases left
  · rintro run member staged ⟨fields, marker⟩ ⟨read, loads, none_⟩
    obtain rfl : rows = read := Except.ok.inj (kept.readable.read.symm.trans loads)
    have unrecorded : Unrecorded rows run.runId.text := by
      rcases kept.accounted run member (alone idle run) with once | ⟨unrecorded, -⟩
      · rw [none_] at once
        cases once
      · exact unrecorded
    have written := completed.recorded _ (Dict.mem_entries_iff.mpr marker) unrecorded
    obtain ⟨run', begun', named, markerOf⟩ := kept.marked _ _ marker
    obtain ⟨startedAt, rfl⟩ := id markerOf
    obtain ⟨typed, -, -, -, under, phase⟩ := field_interruptedRecord site.directory.text
      run.runId.text (.ok ((attempt site run').setField "started_at" (str startedAt.text)))
    refine ⟨rows', kept'.readable.read, _, List.mem_filter.mpr ⟨written, ?_⟩, ?_⟩
    · have same : run' = run := List.inj_on_of_nodup_map kept.distinct begun' member named
      have staged' : (stamped (interruptedRecord site.directory.text run.runId.text
          (.ok ((attempt site run').setField "started_at" (str startedAt.text))))
          recordedAt.text).field "phase" = some (str Stage.research.key) := by
        rw [field_stamped (by decide) (by decide), phase, same, ← staged]
        show ((attempt site run).setField "started_at" (str startedAt.text)).field "phase" = _
        rw [field_setField_of_ne (by decide)]
        simp [attempt, field_cons]
      rw [isType_stamped, isType_iff.mpr typed, staged']
      simp
    · apply textField_eq
      rw [field_stamped (by decide) (by decide), under, ← named, markerOf.runId]

/-- No run dies silently when none is killed between its first test step and its
    record, and no text that breaks its line reaches the ledger. -/
theorem no_run_dies_silently {site : Site} {events : List Event}
    (heeds : Experiment.heedsAll site {} events = true)
    (idle : (Experiment.run site {} events).live = none) (recordedAt : Token) :
    Audited site (Experiment.run site {} events) recordedAt := by
  obtain ⟨rows, kept⟩ := (kept_start site).run heeds
  exact kept.audited idle recordedAt

def sampleSite : Site where
  experimentId := ⟨"exp_1".toList, by decide, by decide⟩
  directory := ⟨"exp_1".toList, by decide, by decide⟩

def sampleRun : Run := ⟨⟨"run_5f2c".toList, by decide, by decide⟩, .research⟩

def sampleTime : Token := ⟨"2026-01-06T09:00:00+00:00".toList, by decide, by decide⟩

/-- A record of the sample run. -/
def sampleRecord (recordType : String) (fields : JsonObject) : JsonObject :=
  ("record_type".toList, str recordType.toList) :: attempt sampleSite sampleRun ++ fields

/-- A run that tests one step and records its session, killed before the marker goes. -/
def recordedSession : List Event :=
  [.begin sampleRun sampleTime,
    .append (sampleRecord "test_step" [("step".toList, num (.ofNat 1))]) sampleTime,
    .append (sampleRecord "research_session" []) sampleTime, .kill,
    .restart sampleTime (some 0)]

theorem recorded_session_audited :
    Audited sampleSite (Experiment.run sampleSite {} recordedSession) sampleTime := by
  apply no_run_dies_silently
  · decide +kernel
  · decide +kernel

/-- A run killed after its first test step. -/
def testedAndKilled : List Event :=
  [.begin sampleRun sampleTime,
    .append (sampleRecord "test_step" [("step".toList, num (.ofNat 1))]) sampleTime, .kill]

/-- Its marker goes at the next start, and it has no terminal record. -/
theorem tested_run_unaudited :
    (Experiment.run sampleSite {} testedAndKilled).live = none ∧
      ¬ Audited sampleSite (Experiment.run sampleSite {} testedAndKilled) sampleTime := by
  refine ⟨by decide +kernel, fun audited => ?_⟩
  obtain ⟨rows, loads, once⟩ := audited.once
  have begun : (Experiment.run sampleSite {} testedAndKilled).begun = [sampleRun] := by
    rfl
  have unended : (readVersionedJsonl ((Experiment.run sampleSite {} testedAndKilled).restart
      sampleSite sampleTime none).ledger).toOption.all (fun rows =>
        (terminalRows rows sampleRun.runId.text).length = 0) = true := by
    decide +kernel
  rw [loads] at unended
  rw [begun] at once
  have none_ : (terminalRows rows sampleRun.runId.text).length = 0 := of_decide_eq_true unended
  rw [once sampleRun (List.mem_singleton_self _)] at none_
  cases none_

end AutoTrade.ExperimentRuns
