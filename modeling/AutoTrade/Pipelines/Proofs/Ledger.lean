import AutoTrade.Misc.Runs
import AutoTrade.Pipelines.Ledger

/-!
# The ledger file and its rows

What an append writes, and that a file of whole records is read back as they
stand.
-/

namespace AutoTrade

open Json JsonLines

variable {record : JsonObject}

theorem breaksLine_eq_false :
    breaksLine record = false ↔ ∀ field ∈ record,
      field.1.any isRawBreak = false ∧ ∀ s ∈ strings field.2, s.any isRawBreak = false := by
  have spelled : strings (obj record) = stringsOfFields record := by
    rw [strings]
  unfold breaksLine
  rw [spelled, List.any_eq_false]
  constructor
  · intro whole field member
    refine ⟨?_, fun s inside => ?_⟩
    · simpa using whole field.1 (mem_stringsOfFields.mpr ⟨field, member, .inl rfl⟩)
    · simpa using whole s (mem_stringsOfFields.mpr ⟨field, member, .inr inside⟩)
  · intro whole s inside
    obtain ⟨field, member, rfl | held⟩ := mem_stringsOfFields.mp inside
    · simpa using (whole field member).1
    · simpa using (whole field member).2 s held

variable {key : String}

theorem breaksLine_setField {value : Json} (whole : breaksLine record = false)
    (named : key.toList.any isRawBreak = false)
    (plain : ∀ s ∈ strings value, s.any isRawBreak = false) :
    breaksLine (record.setField key value) = false := by
  rw [breaksLine_eq_false] at whole ⊢
  intro field member
  rcases List.mem_append.mp member with old | new
  · exact whole field (List.mem_of_mem_filter old)
  · rw [List.mem_singleton.mp new]
    exact ⟨named, plain⟩

theorem plain_strings_str {t : Text} (plain : t.any isRawBreak = false) :
    ∀ s ∈ strings (str t), s.any isRawBreak = false := by
  intro s inside
  rw [strings, List.mem_singleton] at inside
  rw [inside]
  exact plain

variable {recordedAt : Text}

theorem breaksLine_stamped (whole : breaksLine record = false)
    (plain : recordedAt.any isRawBreak = false) :
    breaksLine (stamped record recordedAt) = false := by
  apply breaksLine_setField _ (by decide) (plain_strings_str plain)
  apply breaksLine_setField whole (by decide)
  intro s absurd
  rw [strings] at absurd
  · cases absurd
  all_goals simp

theorem field_stamped (version : key ≠ "schema_version") (stamp : key ≠ "recorded_at") :
    (stamped record recordedAt).field key = record.field key := by
  unfold stamped
  rw [JsonObject.field_setField, if_neg (Ne.symm stamp), JsonObject.field_setField,
    if_neg (Ne.symm version)]

theorem version_stamped (record : JsonObject) (recordedAt : Text) :
    (stamped record recordedAt).field "schema_version" = some (num ledgerSchemaVersion) := by
  unfold stamped
  rw [JsonObject.field_setField, if_neg (by decide), JsonObject.field_setField, if_pos rfl]

theorem isType_stamped (record : JsonObject) (recordedAt : Text) (recordType : String) :
    isType (stamped record recordedAt) recordType = isType record recordType := by
  unfold isType
  rw [field_stamped (by decide) (by decide)]

theorem isType_iff {recordType : String} :
    isType record recordType = true ↔
      record.field "record_type" = some (str recordType.toList) := by
  unfold isType
  rw [decide_eq_true_iff]

theorem isType_inj {recordType recordType' : String} (typed : isType record recordType = true)
    (typed' : isType record recordType' = true) :
    recordType = recordType' := by
  have same : str recordType.toList = str recordType'.toList :=
    Option.some.inj ((isType_iff.mp typed).symm.trans (isType_iff.mp typed'))
  exact String.toList_inj.mp (Json.str.inj same)

theorem textField_eq {value : Text} (found : record.field key = some (str value)) :
    record.textField key = some value := by
  unfold JsonObject.textField
  rw [found]
  rfl

theorem holds_of_field {value : Text} (found : record.field key = some (str value))
    (filled : value ≠ []) :
    record.holds key = true := by
  unfold JsonObject.holds
  rw [found]
  cases value with
  | nil => exact absurd rfl filled
  | cons c rest => rfl

/-- The file holds these rows, each on a line of its own. -/
structure Readable (file : Text) (rows : List JsonObject) : Prop where
  written : file = dumpLines rows
  whole : ∀ row ∈ rows, breaksLine row = false
  versioned : ∀ row ∈ rows, row.field "schema_version" = some (num ledgerSchemaVersion)

theorem readable_nil : Readable [] [] where
  written := rfl
  whole row absurd := by cases absurd
  versioned row absurd := by cases absurd

variable {rows : List JsonObject}

theorem Readable.read {file : Text} (readable : Readable file rows) :
    readVersionedJsonl file = .ok rows := by
  have loads : loadLines plainReader file = some rows := by
    rw [readable.written]
    exact loadLines_dumpLines readable.whole
  have all : (rows.all fun row => row.field "schema_version" = some (num ledgerSchemaVersion)) =
      true := by
    rw [List.all_eq_true]
    intro row member
    simpa using readable.versioned row member
  unfold readVersionedJsonl
  rw [loads]
  exact if_pos all

theorem Readable.append {file : Text} (readable : Readable file rows)
    (whole : breaksLine record = false) (plain : recordedAt.any isRawBreak = false) :
    Readable (appendVersionedJsonl file record recordedAt) (rows ++ [stamped record recordedAt])
    where
  written := by
    unfold appendVersionedJsonl
    rw [readable.written]
    simp [dumpLines]
  whole row member := by
    rcases List.mem_append.mp member with old | new
    · exact readable.whole row old
    · rw [List.mem_singleton.mp new]
      exact breaksLine_stamped whole plain
  versioned row member := by
    rcases List.mem_append.mp member with old | new
    · exact readable.versioned row old
    · rw [List.mem_singleton.mp new]
      exact version_stamped record recordedAt

theorem refuse_eq_ok {applies : Bool} {found : Except LedgerError Bool} {error : LedgerError}
    {done : Unit} :
    refuse applies found error = .ok done ↔ (applies = true → found = .ok false) := by
  unfold refuse
  cases applies with
  | false => simp
  | true =>
    cases found with
    | error e => simp [bind, Except.bind]
    | ok held => cases held <;> simp [bind, Except.bind]

/-- What `append` has checked of a record it writes. -/
structure Admitted (file : Text) (record : JsonObject) : Prop where
  typed : isType record "research_session" = true ∨ isType record "test_step" = true ∨
    isType record "forward" = true ∨ isType record "attempt_failed" = true
  linked : ∀ key ∈ linkKeys, record.holds key = true
  registration : isType record "research_session" = true → record.holds "registered" = true →
    registrationRecorded file = .ok false
  forward : isType record "forward" = true → isRegisteredArtifactMutation record = false →
    forwardVerdictRecorded file = .ok false
  step : isType record "test_step" = true → stepRecorded file record = .ok false

theorem typed_iff :
    (!pipelineRecordTypes.any fun recordType =>
      record.field "record_type" = some (str recordType)) = false ↔
      (isType record "research_session" = true ∨ isType record "test_step" = true ∨
        isType record "forward" = true ∨ isType record "attempt_failed" = true) := by
  unfold isType pipelineRecordTypes
  rw [Bool.not_eq_false', List.any_eq_true]
  simp only [List.mem_cons, List.not_mem_nil, or_false, exists_eq_or_imp, exists_eq_left]

theorem linked_iff :
    (!linkKeys.all fun key => record.holds key) = false ↔
      ∀ key ∈ linkKeys, record.holds key = true := by
  rw [Bool.not_eq_false', List.all_eq_true]

theorem passes_iff {applies : Bool} :
    (applies = true → (.ok true : Except LedgerError Bool) = .ok false) ↔ applies = false := by
  cases applies <;> simp

theorem appendLedger_eq_ok {file file' : Text} :
    appendLedger file record recordedAt = .ok file' ↔
      Admitted file record ∧ file' = appendVersionedJsonl file record recordedAt := by
  unfold appendLedger
  simp only [bind_eq_ok, refuse_eq_ok, pure_eq_ok, exists_const, passes_iff]
  rw [typed_iff, linked_iff]
  constructor
  · rintro ⟨typed, linked, registration, forward, step, rfl⟩
    refine ⟨⟨typed, linked, ?_, ?_, step⟩, rfl⟩
    · intro session registered
      exact registration (by rw [session, registered]; rfl)
    · intro forwarded unchanged
      exact forward (by rw [forwarded, unchanged]; rfl)
  · rintro ⟨admitted, rfl⟩
    refine ⟨admitted.typed, admitted.linked, fun applies => ?_, fun applies => ?_,
      admitted.step, rfl⟩
    · obtain ⟨session, registered⟩ := Bool.and_eq_true_iff.mp applies
      exact admitted.registration session registered
    · obtain ⟨forwarded, unchanged⟩ := Bool.and_eq_true_iff.mp applies
      exact admitted.forward forwarded (by simpa using unchanged)

end AutoTrade
