import AutoTrade.Common.JsonObject
import AutoTrade.Misc.Dict

/-!
# The experiment ledger

One JSON-lines file for each experiment, holding the records of its research
session, its test steps, its forward replay and its failed attempts; and the
in-flight run markers that make a killed run auditable. Records are taken as
`sanitize_for_log` leaves them: it redacts secrets in texts nothing here reads.
-/

namespace AutoTrade

open Json JsonLines

/-- What the ledger refuses. -/
inductive LedgerError where
  | unreadable
  | foreignVersion
  | unsupportedRecordType
  | missingLinkKeys
  | secondRegistration
  | forwardRecorded
  | stepRecorded
  | twoRegistrations
  | twoForwards
  | stepOutOfRange
  | stepUnread
  | wrongWindow
  | notContiguous
  | artifactMutated
  | researchOver
  | sessionRecorded
  | noReadout
  | unknownEnd
  deriving DecidableEq

def pipelineRecordTypes : List Text :=
  ["research_session".toList, "test_step".toList, "forward".toList, "attempt_failed".toList]

def linkKeys : List String := ["experiment_id", "epoch_id", "fold_id", "run_id"]

/-- `LEDGER_RECORD_SCHEMA_VERSION`. -/
def ledgerSchemaVersion : JsonNumber := ⟨['2'], by decide, List.all_eq_true.mp (by decide)⟩

def isType (record : JsonObject) (recordType : String) : Bool :=
  record.field "record_type" = some (str recordType.toList)

/-- `is_registered_artifact_mutation`. -/
def isRegisteredArtifactMutation (record : JsonObject) : Bool :=
  isType record "forward" && record.field "state_changed_during_test" = some (Json.bool true)

/-- `research_records`. -/
def researchRecords (rows : List JsonObject) : List JsonObject :=
  rows.filter fun row => isType row "research_session"

/-- `registered_record`. -/
def registeredRecord (rows : List JsonObject) : Except LedgerError (Option JsonObject) :=
  match (researchRecords rows).filter fun row => row.holds "registered" with
  | [] => .ok none
  | [row] => .ok (some row)
  | _ => .error .twoRegistrations

/-- `forward_record`; an integrity row is not one. -/
def forwardRecord (rows : List JsonObject) : Except LedgerError (Option JsonObject) :=
  match rows.filter fun row => isType row "forward" && !isRegisteredArtifactMutation row with
  | [] => .ok none
  | [row] => .ok (some row)
  | _ => .error .twoForwards

/-- `research_over`. -/
def researchOver (rows : List JsonObject) : Except LedgerError Bool := do
  let registered ← registeredRecord rows
  return registered.isSome || (researchRecords rows).any fun row => row.holds "experiment_end"

/-- `record.get(key) or default`. -/
def fieldOr (record : JsonObject) (key : String) (default : Text) : Json :=
  if record.holds key then (record.field key).getD (str default) else str default

/-- `EXPERIMENT_END_STATUSES`. -/
def experimentEndStatuses : List Text := ["no_deliverable".toList, "environment_blocked".toList]

/-- A terminal status and its reasons, before `str`. -/
structure Verdict where
  status : Json
  reasons : List Json

/-- The status of a research session that ended the experiment. -/
def experimentEnd (ended : JsonObject) : Except LedgerError (Option Verdict) :=
  match ended.field "experiment_end" with
  | some (obj fields) =>
    if experimentEndStatuses.any fun status => JsonObject.field fields "status" = some (str status)
    then .ok (some ⟨(JsonObject.field fields "status").getD null, [fieldOr fields "reason" []]⟩)
    else .error .unknownEnd
  | _ => .error .unknownEnd

/-- `experiment_verdict`. -/
def experimentVerdict (rows : List JsonObject) : Except LedgerError (Option Verdict) := do
  match ← forwardRecord rows with
  | some forward =>
    match forward.field "readout" with
    | some (obj readout) =>
      match JsonObject.field readout "state" with
      | some state => return some ⟨state, []⟩
      | none => throw .noReadout
    | _ => throw .noReadout
  | none =>
    if (← registeredRecord rows).isSome then return none
    match (researchRecords rows).find? fun row => row.holds "experiment_end" with
    | none => return none
    | some ended => experimentEnd ended

/-- The record as `append_versioned_jsonl` writes it. -/
def stamped (record : JsonObject) (recordedAt : Text) : JsonObject :=
  (record.setField "schema_version" (num ledgerSchemaVersion)).setField "recorded_at"
    (str recordedAt)

def appendVersionedJsonl (file : Text) (record : JsonObject) (recordedAt : Text) : Text :=
  file ++ dumpLine (stamped record recordedAt)

/-- `read_versioned_jsonl`. -/
def readVersionedJsonl (file : Text) : Except LedgerError (List JsonObject) :=
  match loadLines plainReader file with
  | none => .error .unreadable
  | some rows =>
    if rows.all fun row => row.field "schema_version" = some (num ledgerSchemaVersion) then .ok rows
    else .error .foreignVersion

/-- The ledger holds a registration. -/
def registrationRecorded (file : Text) : Except LedgerError Bool := do
  return (← registeredRecord (← readVersionedJsonl file)).isSome

def forwardVerdictRecorded (file : Text) : Except LedgerError Bool := do
  return (← forwardRecord (← readVersionedJsonl file)).isSome

/-- The ledger holds a `test_step` of the record's step. -/
def stepRecorded (file : Text) (record : JsonObject) : Except LedgerError Bool := do
  return (← readVersionedJsonl file).any fun row =>
    isType row "test_step" && row.field "step" = record.field "step"

/-- Raise `error` for a record the check `applies` to, when the ledger holds what
    it looks for. -/
def refuse (applies : Bool) (found : Except LedgerError Bool) (error : LedgerError) :
    Except LedgerError Unit :=
  if applies then found >>= fun held => if held then .error error else .ok () else .ok ()

/-- `ExperimentLedger.append`: the file with the record, once it is checked. -/
def appendLedger (file : Text) (record : JsonObject) (recordedAt : Text) :
    Except LedgerError Text := do
  refuse (!pipelineRecordTypes.any fun recordType =>
    record.field "record_type" = some (str recordType)) (.ok true) .unsupportedRecordType
  refuse (!linkKeys.all fun key => record.holds key) (.ok true) .missingLinkKeys
  refuse (isType record "research_session" && record.holds "registered")
    (registrationRecorded file) .secondRegistration
  refuse (isType record "forward" && !isRegisteredArtifactMutation record)
    (forwardVerdictRecorded file) .forwardRecorded
  refuse (isType record "test_step") (stepRecorded file record) .stepRecorded
  return appendVersionedJsonl file record recordedAt

def interruptedRunError : Text :=
  "RunInterrupted: the run process exited before it wrote a ledger record".toList

def unreadableRunMarkerError : Text :=
  ("RunMarkerUnreadable: the run process exited before it wrote a ledger " ++
    "record and its run marker could not be read back").toList

def unknownMarkerLinkKey : Text := "unknown".toList

/-- The marker files by run id: a marker's fields, or why they cannot be read. -/
abbrev RunMarkers := Dict Text (Except Text JsonObject)

/-- `RunMarkers.begin`. -/
def beginRun (markers : RunMarkers) (attempt : JsonObject) (runId startedAt : Text) :
    Except LedgerError RunMarkers :=
  if linkKeys.all fun key => attempt.holds key then
    .ok (markers.set runId (.ok (attempt.setField "started_at" (str startedAt))))
  else .error .missingLinkKeys

/-- `RunMarkers.finish`. -/
def finishRun (markers : RunMarkers) (runId : Text) : RunMarkers := markers.erase runId

/-- `str(marker.get("run_id") or path.stem)`. -/
def markedRunId (stem : Text) (marker : JsonObject) : Text :=
  match marker.textField "run_id" with
  | some runId => if runId = [] then stem else runId
  | none => stem

/-- The `attempt_failed` record of a run that left only its marker. -/
def interruptedRecord (experimentName stem : Text) (marker : Except Text JsonObject) : JsonObject :=
  let fields := match marker with
    | .ok fields => fields
    | .error _ => []
  let error := match marker with
    | .ok _ => interruptedRunError
    | .error reason => unreadableRunMarkerError ++ ": ".toList ++ stem ++ ".json: ".toList ++ reason
  (((((fields.setField "record_type" (str "attempt_failed".toList)).setField "experiment_id"
    (fieldOr fields "experiment_id" experimentName)).setField "epoch_id"
    (fieldOr fields "epoch_id" unknownMarkerLinkKey)).setField "fold_id"
    (fieldOr fields "fold_id" unknownMarkerLinkKey)).setField "run_id"
    (str (markedRunId stem fields))).setField "error" (str error)

/-- The run ids the ledger's records carry. -/
def recordedRunIds (rows : List JsonObject) : List Text :=
  (rows.filterMap fun row => row.textField "run_id").filter (· ≠ [])

/-- One of the writes recovery makes. -/
inductive RecoveryWrite where
  | record (record : JsonObject)
  | unlink (stem : Text)

/-- What recovery does about one marker file. -/
def recoverMarker (experimentName : Text) (rows : List JsonObject)
    (marker : Text × Except Text JsonObject) : List RecoveryWrite :=
  let fields := match marker.2 with
    | .ok fields => fields
    | .error _ => []
  if markedRunId marker.1 fields ∈ recordedRunIds rows then [.unlink marker.1]
  else [.record (interruptedRecord experimentName marker.1 marker.2), .unlink marker.1]

/-- The writes `RunMarkers.recover` makes, in the order of the file names. -/
def recoveryWrites (experimentName : Text) (rows : List JsonObject) (markers : RunMarkers) :
    List RecoveryWrite :=
  (markers.entries.insertionSort fun a b => a.1 ++ ".json".toList ≤ b.1 ++ ".json".toList).flatMap
    (recoverMarker experimentName rows)

end AutoTrade
