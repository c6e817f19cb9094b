import AutoTrade.Pipelines.Proofs.ExperimentRuns

/-!
# A ledger that agrees with itself

However records are appended, and by whichever process, the rows of a ledger that
can be read hold at most one registration and one forward verdict, and each test
step once: its readers never meet a duplicate.
-/

namespace AutoTrade

open Json JsonLines

/-- The registrations among the rows. -/
def registrations (rows : List JsonObject) : List JsonObject :=
  (researchRecords rows).filter fun row => row.holds "registered"

/-- The forward verdicts among the rows. -/
def forwardVerdicts (rows : List JsonObject) : List JsonObject :=
  rows.filter fun row => isType row "forward" && !isRegisteredArtifactMutation row

/-- The steps the rows record, as their fields have them. -/
def recordedSteps (rows : List JsonObject) : List (Option Json) :=
  (rows.filter fun row => isType row "test_step").map fun row => row.field "step"

structure Consistent (rows : List JsonObject) : Prop where
  registrations : (registrations rows).length ≤ 1
  verdicts : (forwardVerdicts rows).length ≤ 1
  steps : (recordedSteps rows).Nodup

/-- No reader of the rows raises on a duplicate. -/
structure ReadsOnce (rows : List JsonObject) : Prop where
  registered : registeredRecord rows = .ok (registrations rows).head?
  forward : forwardRecord rows = .ok (forwardVerdicts rows).head?
  single : researchOver rows ≠ .error .twoRegistrations
  verdict : experimentVerdict rows ≠ .error .twoRegistrations ∧
    experimentVerdict rows ≠ .error .twoForwards

variable {rows : List JsonObject}

theorem consistent_nil : Consistent [] where
  registrations := Nat.zero_le 1
  verdicts := Nat.zero_le 1
  steps := List.nodup_nil

theorem registeredRecord_eq (once : (registrations rows).length ≤ 1) :
    registeredRecord rows = .ok (registrations rows).head? := by
  unfold registeredRecord
  unfold registrations at once ⊢
  generalize List.filter _ _ = found at once ⊢
  rcases found with _ | ⟨row, _ | ⟨other, more⟩⟩
  · rfl
  · rfl
  · simp at once

theorem forwardRecord_eq (once : (forwardVerdicts rows).length ≤ 1) :
    forwardRecord rows = .ok (forwardVerdicts rows).head? := by
  unfold forwardRecord
  unfold forwardVerdicts at once ⊢
  generalize List.filter _ _ = found at once ⊢
  rcases found with _ | ⟨row, _ | ⟨other, more⟩⟩
  · rfl
  · rfl
  · simp at once

theorem experimentEnd_ne {ended : JsonObject} {e : LedgerError} (other : e ≠ .unknownEnd) :
    experimentEnd ended ≠ .error e := by
  unfold experimentEnd
  split
  · split
    · exact nofun
    · exact fun same => other (Except.error.inj same).symm
  · exact fun same => other (Except.error.inj same).symm

theorem Consistent.readsOnce (consistent : Consistent rows) : ReadsOnce rows := by
  have registered := registeredRecord_eq consistent.registrations
  have forward := forwardRecord_eq consistent.verdicts
  have verdict : ∀ e, e ≠ .noReadout → e ≠ .unknownEnd → experimentVerdict rows ≠ .error e := by
    intro e read ended
    unfold experimentVerdict
    rw [forward]
    simp only [bind, Except.bind]
    cases (forwardVerdicts rows).head? with
    | some row =>
      dsimp only
      split
      · split
        · exact nofun
        · exact fun same => read (Except.error.inj same).symm
      · exact fun same => read (Except.error.inj same).symm
    | none =>
      dsimp only
      rw [registered]
      dsimp only
      split
      · exact nofun
      · split
        · exact nofun
        · exact experimentEnd_ne ended
  refine ⟨registered, forward, ?_, verdict _ (by decide) (by decide),
    verdict _ (by decide) (by decide)⟩
  unfold researchOver
  rw [registered]
  exact nofun

section

variable {file : Text} {record : JsonObject} {recordedAt : Text}

theorem holds_stamped {key : String} (other : key ≠ "schema_version")
    (other' : key ≠ "recorded_at") : (stamped record recordedAt).holds key = record.holds key := by
  unfold JsonObject.holds
  rw [field_stamped other other']

theorem isRegisteredArtifactMutation_stamped :
    isRegisteredArtifactMutation (stamped record recordedAt) =
      isRegisteredArtifactMutation record := by
  unfold isRegisteredArtifactMutation
  rw [isType_stamped, field_stamped (by decide) (by decide)]

theorem Consistent.append (consistent : Consistent rows) (read : readVersionedJsonl file = .ok rows)
    (admitted : Admitted file record) : Consistent (rows ++ [stamped record recordedAt]) where
  registrations := by
    unfold AutoTrade.registrations researchRecords
    rw [List.filter_append, List.filter_append, List.length_append]
    by_cases registers : isType record "research_session" = true ∧ record.holds "registered" = true
    · have recorded := admitted.registration registers.1 registers.2
      unfold registrationRecorded at recorded
      rw [read] at recorded
      simp only [bind, Except.bind, registeredRecord_eq consistent.registrations] at recorded
      have none : (AutoTrade.registrations rows).length = 0 := by
        have absent : (AutoTrade.registrations rows).head?.isSome = false := Except.ok.inj recorded
        simpa using absent
      have one : (([stamped record recordedAt].filter fun row =>
          isType row "research_session").filter fun row => row.holds "registered").length ≤ 1 :=
        (List.length_filter_le _ _).trans (List.length_filter_le _ _)
      unfold AutoTrade.registrations researchRecords at none
      omega
    · have nothing : (([stamped record recordedAt].filter fun row =>
          isType row "research_session").filter fun row => row.holds "registered") = [] := by
        rw [List.filter_filter, List.filter_eq_nil_iff]
        intro row member
        rw [List.mem_singleton.mp member, isType_stamped, holds_stamped (by decide) (by decide)]
        simpa [and_comm] using registers
      rw [nothing]
      exact consistent.registrations
  verdicts := by
    unfold forwardVerdicts
    rw [List.filter_append, List.length_append]
    by_cases concludes : isType record "forward" = true ∧
        isRegisteredArtifactMutation record = false
    · have recorded := admitted.forward concludes.1 concludes.2
      unfold forwardVerdictRecorded at recorded
      rw [read] at recorded
      simp only [bind, Except.bind, forwardRecord_eq consistent.verdicts] at recorded
      have none : (forwardVerdicts rows).length = 0 := by
        have absent : (forwardVerdicts rows).head?.isSome = false := Except.ok.inj recorded
        simpa using absent
      have one := List.length_filter_le (fun row => isType row "forward" &&
        !isRegisteredArtifactMutation row) [stamped record recordedAt]
      unfold forwardVerdicts at none
      simp only [List.length_singleton] at one
      omega
    · have nothing : ([stamped record recordedAt].filter fun row =>
          isType row "forward" && !isRegisteredArtifactMutation row) = [] := by
        rw [List.filter_eq_nil_iff]
        intro row member
        rw [List.mem_singleton.mp member, isType_stamped, isRegisteredArtifactMutation_stamped]
        simpa using concludes
      rw [nothing]
      exact consistent.verdicts
  steps := by
    unfold recordedSteps
    rw [List.filter_append, List.map_append]
    by_cases steps : isType record "test_step" = true
    · have recorded := admitted.step steps
      unfold stepRecorded at recorded
      rw [read] at recorded
      have fresh : (rows.any fun row =>
          isType row "test_step" && row.field "step" = record.field "step") = false :=
        Except.ok.inj recorded
      rw [List.any_eq_false] at fresh
      rw [List.filter_cons_of_pos (by rw [isType_stamped]; exact steps), List.filter_nil]
      refine List.Nodup.append consistent.steps (List.nodup_singleton _) ?_
      intro step member last
      have ⟨row, inside, here⟩ := List.mem_map.mp member
      have ⟨there, typed⟩ := List.mem_filter.mp inside
      rw [List.map_singleton, List.mem_singleton, field_stamped (by decide) (by decide)] at last
      exact fresh row there (by simp [typed, here, last])
    · rw [List.filter_cons_of_neg (by rw [isType_stamped]; exact steps), List.filter_nil,
        List.map_nil, List.append_nil]
      exact consistent.steps

end

/-- The ledger after appends, those it refuses left out. -/
def appendAll (file : Text) (appends : List (JsonObject × Token)) : Text :=
  appends.foldl (fun file append =>
    match appendLedger file append.1 append.2.text with
    | .ok file => file
    | .error _ => file) file

/-- The rows a ledger was written with; they agree if none of them breaks its line. -/
structure Ledgered (file : Text) (rows : List JsonObject) : Prop where
  text : file = dumpLines rows
  versioned : ∀ row ∈ rows, row.field "schema_version" = some (num ledgerSchemaVersion)
  consistent : (∀ row ∈ rows, breaksLine row = false) → Consistent rows

variable {file : Text}

theorem ledgered_nil : Ledgered [] [] where
  text := rfl
  versioned row absurd := by cases absurd
  consistent _ := consistent_nil

theorem Ledgered.read (written : Ledgered file rows) {read : List JsonObject}
    (reads : readVersionedJsonl file = .ok read) :
    read = rows ∧ ∀ row ∈ rows, breaksLine row = false := by
  have whole : ∀ row ∈ rows, breaksLine row = false := by
    intro row member
    refine Bool.eq_false_iff.mpr fun broken => ?_
    have fails : loadLines plainReader (dumpLines rows ++ []) = none :=
      loadLines_broken member broken []
    unfold readVersionedJsonl at reads
    rw [written.text, ← List.append_nil (dumpLines rows), fails] at reads
    cases reads
  have readable : Readable file rows := ⟨written.text, whole, written.versioned⟩
  exact ⟨Except.ok.inj (reads.symm.trans readable.read), whole⟩

theorem Ledgered.append (written : Ledgered file rows) {record : JsonObject} {recordedAt : Token}
    (admitted : Admitted file record) :
    Ledgered (appendVersionedJsonl file record recordedAt.text)
      (rows ++ [stamped record recordedAt.text]) where
  text := by
    unfold appendVersionedJsonl
    rw [written.text]
    simp [dumpLines]
  versioned row member := by
    rcases List.mem_append.mp member with old | new
    · exact written.versioned row old
    · rw [List.mem_singleton.mp new]
      exact version_stamped record recordedAt.text
  consistent whole := by
    have whole' := fun row member => whole row (List.mem_append_left _ member)
    have readable : Readable file rows := ⟨written.text, whole', written.versioned⟩
    exact (written.consistent whole').append readable.read admitted

/-- A ledger that its own appends wrote. -/
def Reached (file : Text) : Prop := ∃ rows, Ledgered file rows

theorem Reached.append (reached : Reached file) {record : JsonObject} {recordedAt : Token}
    {file' : Text} (appended : appendLedger file record recordedAt.text = .ok file') :
    Reached file' := by
  have ⟨rows, written⟩ := reached
  have ⟨admitted, here⟩ := appendLedger_eq_ok.mp appended
  rw [here]
  exact ⟨_, written.append admitted⟩

theorem Reached.appendAll (reached : Reached file) (appends : List (JsonObject × Token)) :
    Reached (appendAll file appends) := by
  induction appends generalizing file with
  | nil => exact reached
  | cons append later ih =>
    unfold AutoTrade.appendAll
    rw [List.foldl_cons]
    cases appended : appendLedger file append.1 append.2.text with
    | ok file' => exact ih (reached.append appended)
    | error e => exact ih reached

theorem Reached.consistent (reached : Reached file) {read : List JsonObject}
    (reads : readVersionedJsonl file = .ok read) : Consistent read ∧ ReadsOnce read := by
  have ⟨rows, written⟩ := reached
  have ⟨same, whole⟩ := written.read reads
  rw [same]
  exact ⟨written.consistent whole, (written.consistent whole).readsOnce⟩

namespace ExperimentRuns

variable {x : Experiment}

theorem reached_append (reached : Reached x.ledger) (record : JsonObject) (recordedAt : Token) :
    Reached (x.append record recordedAt).ledger := by
  unfold Experiment.append
  split
  · exact reached
  · split_ifs
    · exact reached
    · split
      · exact reached
      · rename_i appended
        exact reached.append appended

theorem reached_recover {writes : List RecoveryWrite} (reached : Reached x.ledger)
    (recordedAt : Token) : Reached (x.recover recordedAt writes).ledger := by
  induction writes generalizing x with
  | nil => exact reached
  | cons write rest ih =>
    cases write with
    | unlink stem => exact ih reached
    | record record =>
      unfold Experiment.recover
      split
      · exact reached
      · rename_i ledger appended
        exact ih (x := { x with ledger }) (reached.append appended)

theorem reached_step (site : Site) (reached : Reached x.ledger) (event : Event) :
    Reached (x.step site event).ledger := by
  cases event with
  | begin run startedAt =>
    show Reached (x.begin site run startedAt).ledger
    unfold Experiment.begin
    split_ifs
    · exact reached
    · split <;> exact reached
  | append record recordedAt => exact reached_append reached record recordedAt
  | finish =>
    show Reached x.finish.ledger
    unfold Experiment.finish
    split
    · exact reached
    · split_ifs <;> exact reached
  | kill => exact reached
  | tear stem reason =>
    show Reached (x.tear stem reason).ledger
    unfold Experiment.tear
    split_ifs <;> exact reached
  | restart recordedAt killedAfter =>
    show Reached (x.restart site recordedAt killedAfter).ledger
    unfold Experiment.restart
    split_ifs
    · exact reached
    · split
      · exact reached
      · exact reached_recover reached recordedAt

theorem reached_run (site : Site) (reached : Reached x.ledger) (events : List Event) :
    Reached (x.run site events).ledger := by
  induction events generalizing x with
  | nil => exact reached
  | cons event later ih => exact ih (reached_step site reached event)

end ExperimentRuns

/-- Whatever is appended in whatever order, and however the runs of an experiment are killed and
its worker restarted, the rows the ledger is read as hold no duplicate and none is met. -/
theorem ledger_never_contradicts :
    (∀ appends rows, readVersionedJsonl (appendAll [] appends) = .ok rows →
      Consistent rows ∧ ReadsOnce rows) ∧
    ∀ site events rows,
      readVersionedJsonl (ExperimentRuns.Experiment.run site {} events).ledger = .ok rows →
        Consistent rows ∧ ReadsOnce rows := by
  have start : Reached [] := ⟨[], ledgered_nil⟩
  constructor
  · intro appends rows reads
    exact (start.appendAll appends).consistent reads
  · intro site events rows reads
    have reached : Reached (ExperimentRuns.Experiment.run site {} events).ledger :=
      ExperimentRuns.reached_run site start events
    exact reached.consistent reads

end AutoTrade
