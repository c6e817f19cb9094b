import AutoTrade.DataSources.Tushare.CronUpdate

/-!
# Generation identifiers

A job publishes its own UUID once, at a moment, or restores the identity it
found over a lake it has not written. What is left is the sweep before a job
opens the record: where no sweep completes a commit over a published record,
two moments with one generation have no write between them.
-/

namespace AutoTrade

variable {Cell : Type}

/-- An effect that writes the generation record. -/
def Effect.isRecord : Effect Cell → Bool
  | .record _ => true
  | _ => false

/-- An effect that may change a visible file. -/
def Effect.renames : Effect Cell → Bool
  | .lake _ op => op.renames
  | _ => false

theorem changes_renames {d : Disk Cell} {op : DiskOp Cell} (none : op.renames = false) :
    d.changes op = false := by
  cases op <;> first | rfl | cases none

namespace CronState

theorem apply_jobs (s : CronState Cell) (e : Effect Cell) : (s.apply e).jobs = s.jobs := by
  cases e <;> rfl

variable {s : CronState Cell}

theorem apply_record {e : Effect Cell} (other : e.isRecord = false) :
    (s.apply e).record = s.record := by
  cases e <;> first | rfl | cases other

theorem apply_writes (s : CronState Cell) (e : Effect Cell) : s.writes ≤ (s.apply e).writes := by
  cases e <;> simp [apply]

theorem apply_quiet {e : Effect Cell} (none : e.renames = false) :
    (s.apply e).writes = s.writes := by
  cases e with
  | lake path op => simp [apply, changes_renames (show op.renames = false from none)]
  | record _ => rfl
  | jobState _ _ => rfl

theorem generation_congr {s t : CronState Cell} (same : t.record = s.record) :
    t.generation = s.generation := by
  unfold generation
  rw [same]

theorem generation_updating (record : GenerationRecord) (here : s.record = some record)
    (updating : record.state = .updating) :
    s.generation = none := by
  simp [generation, here, updating]

theorem generation_committed (record : GenerationRecord) (here : s.record = some record)
    (committed : record.state = .committed) :
    s.generation = some record.generationId := by
  simp [generation, here, committed]

end CronState

section Moments

variable {s t : CronState Cell} {es es' : List (Effect Cell)}

theorem moment_jobs (es : List (Effect Cell)) (s : CronState Cell) :
    ∀ t ∈ (cronDevice Cell).crashes s es, t.jobs = s.jobs :=
  (cronDevice Cell).crashes_unchanged CronState.jobs (fun _ _ s => s.apply_jobs _)
    (fun _ _ _ _ torn => absurd torn List.not_mem_nil) s

theorem moment_record (other : ∀ e ∈ es, e.isRecord = false) (s : CronState Cell) :
    ∀ t ∈ (cronDevice Cell).crashes s es, t.record = s.record :=
  (cronDevice Cell).crashes_unchanged CronState.record
    (fun e member _ => CronState.apply_record (other e member))
    (fun _ _ _ _ torn => absurd torn List.not_mem_nil) s

theorem moment_quiet (none : ∀ e ∈ es, e.renames = false) (s : CronState Cell) :
    ∀ t ∈ (cronDevice Cell).crashes s es, t.writes = s.writes :=
  (cronDevice Cell).crashes_unchanged CronState.writes
    (fun e member _ => CronState.apply_quiet (none e member))
    (fun _ _ _ _ torn => absurd torn List.not_mem_nil) s

theorem moment_writes (member : t ∈ (cronDevice Cell).crashes s es) : s.writes ≤ t.writes :=
  (cronDevice Cell).crashes_invariant (P := fun t => s.writes ≤ t.writes)
    (fun e _ t before => before.trans (t.apply_writes e))
    (fun _ _ _ _ _ torn => absurd torn List.not_mem_nil) (le_refl _) t member

theorem moment_le_run (member : t ∈ (cronDevice Cell).crashes s es) :
    t.writes ≤ ((cronDevice Cell).run s es).writes := by
  induction es generalizing s with
  | nil => simp_all
  | cons e es ih =>
    rcases (cronDevice Cell).mem_crashes_cons.mp member with rfl | torn | later
    · exact moment_writes ((cronDevice Cell).run_mem_crashes t (e :: es))
    · exact absurd torn List.not_mem_nil
    · exact ih later

theorem run_jobs (es : List (Effect Cell)) (s : CronState Cell) :
    ((cronDevice Cell).run s es).jobs = s.jobs :=
  moment_jobs es s _ ((cronDevice Cell).run_mem_crashes s es)

theorem run_record (other : ∀ e ∈ es, e.isRecord = false) (s : CronState Cell) :
    ((cronDevice Cell).run s es).record = s.record :=
  moment_record other s _ ((cronDevice Cell).run_mem_crashes s es)

theorem run_quiet (none : ∀ e ∈ es, e.renames = false) (s : CronState Cell) :
    ((cronDevice Cell).run s es).writes = s.writes :=
  moment_quiet none s _ ((cronDevice Cell).run_mem_crashes s es)

end Moments

theorem sweep_isRecord (s : CronState Cell) (walk : List (Text × List Leftover)) :
    ∀ e ∈ sweep s walk, e.isRecord = false := by
  induction walk generalizing s with
  | nil => simp [sweep]
  | cons entry rest ih =>
    intro e member
    simp only [sweep] at member
    rcases List.mem_append.mp member with here | later
    · obtain ⟨op, -, rfl⟩ := List.mem_map.mp here
      rfl
    · exact ih _ e later

theorem child_effects (child : ChildRun Cell) : ∀ e ∈ child.effects, ∃ op ∈ child.ops,
    e = .lake op.1 op.2 := by
  intro e member
  obtain ⟨op, here, rfl⟩ := List.mem_map.mp member
  exact ⟨op, here, rfl⟩

theorem update_isRecord (updated : Updated Cell) :
    ∀ e ∈ updated.effects, e.isRecord = false := by
  intro e member
  obtain ⟨child, -, here⟩ := List.mem_flatMap.mp member
  obtain ⟨op, -, rfl⟩ := child_effects child e here
  rfl

theorem update_renames {updated : Updated Cell}
    (none : ∀ child ∈ updated.children, ∀ op ∈ child.ops, op.2.renames = false) :
    ∀ e ∈ updated.effects, e.renames = false := by
  intro e member
  obtain ⟨child, started, here⟩ := List.mem_flatMap.mp member
  obtain ⟨op, inOps, rfl⟩ := child_effects child e here
  exact none child started op inOps

theorem runUpdate_children (failFast : Bool) (raisesAt : Option Nat)
    (children : List (ChildRun Cell)) :
    (runUpdate failFast raisesAt children).children <+: children := by
  induction children generalizing raisesAt with
  | nil =>
    rcases raisesAt with _ | _ | n <;> simp [runUpdate]
  | cons child rest ih =>
    have step : ∀ raisesAt' : Option Nat, raisesAt' ≠ some 0 →
        (runUpdate failFast raisesAt' (child :: rest)).children <+: child :: rest := by
      intro raisesAt' later
      rw [runUpdate]
      · split_ifs
        · exact ⟨rest, rfl⟩
        · obtain ⟨more, whole⟩ := ih (raisesAt'.map (· - 1))
          exact ⟨more, by rw [List.cons_append, whole]⟩
      · exact later
    rcases raisesAt with _ | _ | n
    · exact step none (by simp)
    · simp [runUpdate]
    · exact step (some (n + 1)) (by simp)

/-- What the re-pulls have done: lake operations only, and none without a commit. -/
structure Finishing.Kept (s : Finishing Cell) (commit : Bool) : Prop where
  isRecord : ∀ e ∈ s.effects, e.isRecord = false
  commit : s.commit = false → commit = false ∧ s.effects = []

variable {job : Job Cell}

theorem repullDataset_kept {s : Finishing Cell} {commit : Bool} (kept : s.Kept commit)
    (dataset : Text) : (repullDataset job s dataset).Kept commit := by
  unfold repullDataset
  split_ifs with pending
  · refine ⟨fun e member => ?_, fun none => by cases none⟩
    rcases List.mem_append.mp member with old | new
    · exact kept.isRecord e old
    · obtain ⟨op, -, rfl⟩ := child_effects _ e new
      rfl
  · exact kept

theorem finishJob_eq (job : Job Cell) (fresh : WriteId) (previous : Option GenerationRecord)
    (transaction : Transaction) (outcomes : List PartitionOutcome) (commit repull : Bool) :
    ∃ es record, finishJob job fresh previous transaction outcomes commit repull =
        es ++ [.record record] ∧
      (∀ e ∈ es, e.isRecord = false) ∧ record.state = .committed ∧
      (record.generationId = some fresh ∨
        (commit = false ∧ es = [] ∧ wasCommitted previous = true ∧
          record.generationId = previousId previous)) := by
  let start : Finishing Cell :=
    let folded := foldOutcomes (previousDatasets previous) (previousIssues previous) outcomes job.now
    ⟨folded.datasets, openRepulls job folded.issues folded.restated, folded.restated, commit, []⟩
  have kept : ∀ datasets : List Text, (datasets.foldl (repullDataset job) start).Kept commit := by
    intro datasets
    have begun : start.Kept commit := ⟨by simp [start], fun none => ⟨none, rfl⟩⟩
    induction datasets using List.reverseRecOn with
    | nil => exact begun
    | append_singleton datasets dataset ih =>
      rw [List.foldl_append]
      exact repullDataset_kept ih dataset
  have left : ∃ left : Finishing Cell, left.Kept commit ∧ ∃ datasets,
      finishJob job fresh previous transaction outcomes commit repull = left.effects ++
        [.record (finishRawGenerationUpdate previous transaction fresh job.now left.commit datasets
          left.issues)] := by
    cases repull with
    | true => exact ⟨_, kept _, _, rfl⟩
    | false => exact ⟨_, kept [], _, rfl⟩
  obtain ⟨left, kept, datasets, whole⟩ := left
  refine ⟨left.effects, _, whole, kept.isRecord, rfl, ?_⟩
  simp only [finishRawGenerationUpdate]
  by_cases commits : (left.commit || !wasCommitted previous) = true
  · exact .inl (if_pos commits)
  · simp only [Bool.or_eq_true, Bool.not_eq_true', not_or, Bool.not_eq_true,
      Bool.not_eq_false] at commits
    obtain ⟨asked, none⟩ := kept.commit commits.1
    refine .inr ⟨asked, none, commits.2, if_neg ?_⟩
    simp [commits]

/-- What a reader may find at a moment of a job: nothing published, what the job
found over the lake it found, or the job's own id over the lake it leaves. -/
def CronState.FoundAt (s : CronState Cell) (writes : Nat) (t : CronState Cell) : Prop :=
  t.generation = none ∨ (t.generation = s.generation ∧ t.writes = s.writes) ∨
    (t.generation = some (some s.jobs) ∧ t.writes = writes)

theorem updateReturncode_singleton (code : Int) :
    updateReturncode [code] = code ∨ updateReturncode [code] = 1 := by
  unfold updateReturncode
  by_cases retry : code = mutatedNotReadyRetryExitCode ∨ code = noMutationRetryExitCode
  · rcases retry with rfl | rfl <;> exact .inl (by decide)
  by_cases zero : code = 0
  · subst zero
    exact .inl (by decide)
  rw [not_or] at retry
  by_cases failure : code = noMutationFailureExitCode
  · subst failure
    exact .inl (by decide)
  · simp [retry, zero, failure]

theorem vouched_renames (vouches : job.vouched job.update.returncode = true) :
    ∀ child ∈ job.update.children, ∀ op ∈ child.ops, op.2.renames = false := by
  have run : job.update.children <+: job.commands.map Prod.snd := runUpdate_children ..
  unfold Updated.returncode at vouches
  generalize job.update.children = started at run vouches ⊢
  have lone : job.commands.length = 1 := by
    simp only [Job.vouched, noMutationRetry, noMutationFailure, Bool.or_eq_true, Bool.and_eq_true,
      decide_eq_true_eq] at vouches
    rcases vouches with retry | failure
    · exact retry.2
    · exact failure.2
  obtain ⟨⟨argv, child⟩, whole⟩ := List.length_eq_one_iff.mp lone
  rw [Job.vouched, lone] at vouches
  rw [whole] at run
  rcases List.prefix_cons_iff.mp run with rfl | ⟨rest, rfl, short⟩
  · simp
  obtain rfl : rest = [] := by simpa using short
  have code : updateReturncode [child.returncode] = child.returncode := by
    refine (updateReturncode_singleton child.returncode).resolve_right fun one => ?_
    rw [List.map_singleton, one] at vouches
    simp [noMutationRetry, noMutationFailure, noMutationRetryExitCode,
      noMutationFailureExitCode] at vouches
  rw [List.map_singleton, code] at vouches
  intro c member
  obtain rfl := List.mem_singleton.mp member
  exact job.truthful argv c whole vouches

theorem recordState_effect (job : Job Cell) (status : JobStatus) :
    (job.recordState status).isRecord = false ∧ (job.recordState status).renames = false :=
  ⟨rfl, rfl⟩

theorem foundAt_mutating {s : CronState Cell} {opened closed : GenerationRecord}
    {work : List (Effect Cell)} {state : Effect Cell} (updating : opened.state = .updating)
    (other : ∀ e ∈ work, e.isRecord = false) (committed : closed.state = .committed)
    (quiet : state.isRecord = false ∧ state.renames = false)
    (identity : closed.generationId = some s.jobs ∨
      ((∀ e ∈ work, e.renames = false) ∧ some closed.generationId = s.generation)) :
    ∃ writes, ∀ t ∈ (cronDevice Cell).crashes s ([.record opened] ++ work ++ [.record closed] ++
      [state]), s.FoundAt writes t := by
  refine ⟨((cronDevice Cell).run s ([.record opened] ++ work)).writes, fun t member => ?_⟩
  rw [List.append_assoc, (cronDevice Cell).mem_crashes_append] at member
  rcases member with working | ending
  · rcases (cronDevice Cell).mem_crashes_cons.mp working with rfl | torn | later
    · exact .inr (.inl ⟨rfl, rfl⟩)
    · exact absurd torn List.not_mem_nil
    · have still := moment_record other _ t later
      exact .inl (CronState.generation_updating opened still updating)
  · set u := (cronDevice Cell).run s ([.record opened] ++ work) with left
    rcases (cronDevice Cell).mem_crashes_cons.mp ending with rfl | torn | last
    · have still := run_record other (s.apply (.record opened))
      exact .inl (CronState.generation_updating opened still updating)
    · exact absurd torn List.not_mem_nil
    have tail : ∀ e ∈ [state], e.isRecord = false ∧ e.renames = false := by simpa using quiet
    have record := moment_record (fun e member => (tail e member).1) _ t last
    have writes := moment_quiet (fun e member => (tail e member).2) _ t last
    have published := CronState.generation_committed closed record committed
    rcases identity with fresh | ⟨none, same⟩
    · exact .inr (.inr ⟨by rw [published, fresh], writes⟩)
    · refine .inr (.inl ⟨published.trans same, writes.trans ?_⟩)
      exact run_quiet none (s.apply (.record opened))

theorem generation_previous {s : CronState Cell} (committed : wasCommitted s.record = true) :
    s.generation = some (previousId s.record) := by
  cases here : s.record with
  | none => simp [wasCommitted, here] at committed
  | some record =>
    have state : record.state = .committed := by simpa [wasCommitted, here] using committed
    simp [CronState.generation, here, state, previousId]

theorem mutating_foundAt (s : CronState Cell) {commit : Bool} (repull : Bool) (status : JobStatus)
    (quiet : commit = false → ∀ e ∈ job.update.effects, e.renames = false) :
    ∃ writes, ∀ t ∈ (cronDevice Cell).crashes s (job.mutating s commit repull status),
      s.FoundAt writes t := by
  obtain ⟨es, closed, whole, records, committed, identity⟩ := finishJob_eq job s.jobs s.record
    job.transaction job.update.outcomes commit repull
  rw [Job.mutating, whole, ← List.append_assoc, List.append_assoc [Effect.record _]]
  refine foundAt_mutating rfl (fun e member => ?_) committed (recordState_effect job status) ?_
  · exact (List.mem_append.mp member).elim (update_isRecord _ e) (records e)
  · rcases identity with fresh | ⟨asked, none, before, same⟩
    · exact .inl fresh
    · refine .inr ⟨?_, by rw [generation_previous before, same]⟩
      rw [none, List.append_nil]
      exact quiet asked

theorem body_foundAt (job : Job Cell) (s : CronState Cell) :
    ∃ writes, ∀ t ∈ (cronDevice Cell).crashes s (job.body s), s.FoundAt writes t := by
  unfold Job.body
  dsimp only
  split_ifs with skips mutates raised
  · refine ⟨0, fun t member => .inr (.inl ?_)⟩
    obtain rfl := List.mem_singleton.mp member
    exact ⟨rfl, rfl⟩
  · exact mutating_foundAt s false .error fun asked => by cases asked
  · refine mutating_foundAt s true _ fun asked => ?_
    exact update_renames (vouched_renames (by simpa using asked))
  all_goals
    refine ⟨0, fun t member => .inr (.inl ?_)⟩
    have started : job.update.children <+: job.commands.map Prod.snd := runUpdate_children ..
    have renames := update_renames fun child run => by
      obtain ⟨command, inJob, rfl⟩ := List.mem_map.mp (started.subset run)
      exact job.readOnly (by simpa using mutates) command inJob
    have record := moment_record (fun e here => (List.mem_append.mp here).elim
      (update_isRecord _ e) fun last => List.mem_singleton.mp last ▸ rfl) s t member
    have writes := moment_quiet (fun e here => (List.mem_append.mp here).elim
      (renames e) fun last => List.mem_singleton.mp last ▸ rfl) s t member
    exact ⟨CronState.generation_congr record, writes⟩

theorem effects_isRecord (job : Job Cell) (s : CronState Cell) :
    ∀ e ∈ (job.effects s).1, e.isRecord = false := by
  unfold Job.effects
  split_ifs
  · simp
  · simp
  · simp
  · simp
  · exact sweep_isRecord s job.walk

theorem swept_isRecord (job : Job Cell) (s : CronState Cell) :
    ∀ e ∈ job.swept s, e.isRecord = false := by
  unfold Job.swept
  split
  · exact effects_isRecord job s
  · exact fun e member => effects_isRecord job s e (List.mem_of_mem_take member)
  · exact fun e member => effects_isRecord job s e (List.mem_of_mem_take member)

theorem executed_eq (job : Job Cell) (s : CronState Cell) :
    ∃ rest last, job.executed s = job.swept s ++ rest ++ last ∧
      (rest = [] ∨ job.swept s = (job.effects s).1 ∧ rest <+: (job.effects s).2) ∧
      ∀ e ∈ last, e.isRecord = false ∧ e.renames = false := by
  have cut : ∀ n, (job.effects s).2.take (n - (job.effects s).1.length) = [] ∨
      (job.effects s).1.take n = (job.effects s).1 ∧
        (job.effects s).2.take (n - (job.effects s).1.length) <+: (job.effects s).2 := by
    intro n
    rcases Nat.le_total n (job.effects s).1.length with short | long
    · exact .inl (by rw [Nat.sub_eq_zero_of_le short, List.take_zero])
    · exact .inr ⟨List.take_of_length_le long, List.take_prefix _ _⟩
  unfold Job.executed Job.swept
  cases job.fate with
  | completes =>
    exact ⟨(job.effects s).2, [], by simp, .inr ⟨rfl, List.prefix_refl _⟩, by simp⟩
  | crashes n => exact ⟨_, [], by simp [List.take_append], cut n, by simp⟩
  | raises n =>
    refine ⟨_, [job.recordState .error], by simp [List.take_append], cut n, ?_⟩
    simpa using recordState_effect job .error

theorem executed_foundAt {s : CronState Cell}
    (quiet : s.generation ≠ none → ((cronDevice Cell).run s (job.swept s)).writes = s.writes) :
    ∃ writes, ∀ t ∈ (cronDevice Cell).crashes s (job.executed s), s.FoundAt writes t := by
  obtain ⟨rest, last, whole, cut, ends⟩ := executed_eq job s
  have records := swept_isRecord job s
  have swept : ∀ t ∈ (cronDevice Cell).crashes s (job.swept s),
      t.generation = none ∨ (t.generation = s.generation ∧ t.writes = s.writes) := by
    intro t member
    have same := CronState.generation_congr (moment_record records s t member)
    by_cases published : s.generation = none
    · exact .inl (same.trans published)
    · refine .inr ⟨same, le_antisymm ?_ (moment_writes member)⟩
      exact quiet published ▸ moment_le_run member
  -- From the end of the sweep on, and what the job's state adds.
  have finds : ∃ writes, ∀ t ∈ (cronDevice Cell).crashes ((cronDevice Cell).run s (job.swept s))
      rest, s.FoundAt writes t := by
    have start := swept _ ((cronDevice Cell).run_mem_crashes s (job.swept s))
    rcases cut with rfl | ⟨complete, part⟩
    · refine ⟨0, fun t member => ?_⟩
      obtain rfl := List.mem_singleton.mp member
      exact start.imp_right .inl
    · obtain ⟨writes, found⟩ : ∃ writes, ∀ t ∈ (cronDevice Cell).crashes
          ((cronDevice Cell).run s (job.swept s)) (job.effects s).2,
          ((cronDevice Cell).run s (job.swept s)).FoundAt writes t := by
        rw [complete]
        unfold Job.effects
        split_ifs
        · exact ⟨0, by simp [CronState.FoundAt]⟩
        · refine ⟨0, fun t member => .inr (.inl ?_)⟩
          exact ⟨CronState.generation_congr (moment_record (by simp [Job.recordState, Effect.isRecord])
            _ t member), moment_quiet (by simp [Job.recordState, Effect.renames]) _ t member⟩
        · exact ⟨0, by simp [CronState.FoundAt]⟩
        · refine ⟨0, fun t member => .inr (.inl ?_)⟩
          exact ⟨CronState.generation_congr (moment_record (by simp [Job.recordState, Effect.isRecord])
            _ t member), moment_quiet (by simp [Job.recordState, Effect.renames]) _ t member⟩
        · exact body_foundAt job _
      obtain ⟨more, parts⟩ := part
      refine ⟨writes, fun t member => ?_⟩
      have inBody : t ∈ (cronDevice Cell).crashes ((cronDevice Cell).run s (job.swept s))
          (job.effects s).2 := by
        rw [← parts, (cronDevice Cell).mem_crashes_append]
        exact .inl member
      rcases found t inBody with none | ⟨same, still⟩ | ⟨fresh, there⟩
      · exact .inl none
      · rcases start with none | ⟨before, writes⟩
        · exact .inl (same.trans none)
        · exact .inr (.inl ⟨same.trans before, still.trans writes⟩)
      · rw [run_jobs] at fresh
        exact .inr (.inr ⟨fresh, there⟩)
  obtain ⟨writes, found⟩ := finds
  refine ⟨writes, fun t member => ?_⟩
  rw [whole, (cronDevice Cell).mem_crashes_append, (cronDevice Cell).mem_crashes_append] at member
  rcases member with (early | body) | late
  · exact (swept t early).imp_right .inl
  · exact found t body
  · have before := found _ ((cronDevice Cell).run_mem_crashes _ rest)
    rw [(cronDevice Cell).run_append] at late
    have same := CronState.generation_congr (moment_record (fun e here => (ends e here).1) _ t late)
    have still := moment_quiet (fun e here => (ends e here).2) _ t late
    unfold CronState.FoundAt at before ⊢
    rwa [same, still]

/-- A job whose sweep writes nothing under a published generation. -/
def SweepsQuietly (start : CronState Cell × Job Cell) : Prop :=
  start.1.generation ≠ none →
    ((cronDevice Cell).run start.1 (start.2.swept start.1)).writes = start.1.writes

/-- The lake each id was published over, as the number of writes before it. -/
def CronState.PublishedOver (s : CronState Cell) (writesAt : Nat → Nat) : Prop :=
  ∀ g, s.generation = some g → ∃ id, g = some id ∧ id < s.jobs ∧ s.writes = writesAt id

theorem history_published (jobs : List (Job Cell)) {s : CronState Cell} {writesAt : Nat → Nat}
    (start : s.PublishedOver writesAt) (quiet : ∀ start ∈ s.starts jobs, SweepsQuietly start) :
    ∃ writesAt' : Nat → Nat, (∀ id < s.jobs, writesAt' id = writesAt id) ∧
      ∀ t ∈ s.history jobs, ∀ g, t.generation = some g →
        ∃ id, g = some id ∧ t.writes = writesAt' id := by
  induction jobs generalizing s writesAt with
  | nil =>
    refine ⟨writesAt, fun _ _ => rfl, fun t member g published => ?_⟩
    obtain rfl := List.mem_singleton.mp member
    obtain ⟨id, same, -, upon⟩ := start g published
    exact ⟨id, same, upon⟩
  | cons job jobs ih =>
    obtain ⟨writes, found⟩ := executed_foundAt (quiet (s, job) List.mem_cons_self)
    -- Ids below the counter keep their lake, the job's own gets the lake it leaves.
    have ofJob : ∀ t ∈ (cronDevice Cell).crashes s (job.executed s), ∀ g, t.generation = some g →
        ∃ id, g = some id ∧ id < s.jobs + 1 ∧
          t.writes = Function.update writesAt s.jobs writes id := by
      intro t member g published
      rcases found t member with none | ⟨same, still⟩ | ⟨fresh, there⟩
      · rw [none] at published
        cases published
      · obtain ⟨id, named, known, upon⟩ := start g (same ▸ published)
        refine ⟨id, named, known.trans (Nat.lt_succ_self _), ?_⟩
        rw [Function.update_of_ne known.ne, still, upon]
      · rw [published] at fresh
        refine ⟨s.jobs, Option.some.inj fresh, Nat.lt_succ_self _, ?_⟩
        rw [Function.update_self, there]
    have next : (s.step job).PublishedOver (Function.update writesAt s.jobs writes) := fun g published =>
      ofJob _ ((cronDevice Cell).run_mem_crashes s (job.executed s)) g published
    obtain ⟨writesAt', agrees, later⟩ := ih next
      fun start member => quiet start (List.mem_cons_of_mem _ member)
    refine ⟨writesAt', fun id known => ?_, fun t member g published => ?_⟩
    · rw [agrees id (known.trans (Nat.lt_succ_self _)), Function.update_of_ne known.ne]
    · rcases List.mem_append.mp member with here | there
      · obtain ⟨id, named, known, upon⟩ := ofJob t here g published
        exact ⟨id, named, upon.trans (agrees id known).symm⟩
      · exact later t there g published

theorem starts_history {jobs : List (Job Cell)} {s : CronState Cell}
    {start : CronState Cell × Job Cell} (member : start ∈ s.starts jobs) :
    start.1 ∈ s.history jobs ∧
      (cronDevice Cell).run start.1 (start.2.swept start.1) ∈ s.history jobs := by
  induction jobs generalizing s with
  | nil => cases member
  | cons job jobs ih =>
    simp only [CronState.history, List.mem_append]
    rcases List.mem_cons.mp member with rfl | later
    · refine ⟨.inl ((cronDevice Cell).start_mem_crashes _ _), .inl ?_⟩
      obtain ⟨rest, last, whole, -⟩ := executed_eq job s
      rw [whole, List.append_assoc, (cronDevice Cell).mem_crashes_append]
      exact .inl ((cronDevice Cell).run_mem_crashes _ _)
    · exact (ih later).imp .inr .inr

/-- In every sequence of jobs, each cut off anywhere, the moments that publish one
generation have no write between them, exactly where no sweep completes a
commit under a published generation. -/
theorem generations_sound_iff (lake : Dict Text (Disk Cell)) (jobs : List (Job Cell)) :
    (∀ s ∈ (CronState.init lake).history jobs, ∀ t ∈ (CronState.init lake).history jobs, ∀ g,
      s.generation = some g → t.generation = some g → s.writes = t.writes) ↔
      ∀ start ∈ (CronState.init lake).starts jobs, SweepsQuietly start := by
  constructor
  · intro sound start member published
    obtain ⟨before, after⟩ := starts_history member
    obtain ⟨g, here⟩ := Option.ne_none_iff_exists'.mp published
    have same := CronState.generation_congr (run_record (swept_isRecord start.2 start.1) start.1)
    exact sound _ after _ before g (same.trans here) here
  · intro quiet s here t there g publishes publishes'
    have unpublished : (CronState.init lake).PublishedOver fun _ => 0 := by
      intro g published
      cases published
    obtain ⟨writesAt, -, upon⟩ := history_published jobs unpublished quiet
    obtain ⟨id, rfl, writes⟩ := upon s here g publishes
    obtain ⟨id', same, writes'⟩ := upon t there _ publishes'
    obtain rfl := Option.some.inj same
    rw [writes, writes']

/-- A tier whose child is killed between the two renames of a partition. -/
def killedTier : Job Nat :=
  let path := "daily/20240102.parquet".toList
  { name := "daily".toList, operation := .downloadTier, tier := "core".toList
    startDate := "20240102".toList, endDate := "20240102".toList, configIdentity := []
    walk := [], now := 0
    commands := [([], ⟨[(path, .stageParquet 7 ⟨some 7, ⟨[], []⟩⟩),
      (path, .stageSidecar 7 { Sidecar.none with rowCount := some 0, writeId := some 7 }),
      (path, .replaceParquet 7)], [], -9⟩)]
    truthful := by
      rintro argv child same vouches
      cases same
      cases vouches
    readOnly := fun reads => by cases reads }

/-- An auction capture that finds nothing to take yet. -/
def idleCapture : Job Nat :=
  { name := "auction".toList, operation := .auctionCapture, tier := []
    startDate := "20240103".toList, endDate := "20240103".toList, configIdentity := []
    walk := [("daily/20240102.parquet".toList, [.sidecar 7])], now := 1
    commands := [([], ⟨[], [], 75⟩)]
    truthful := by
      rintro argv child same -
      cases same
      exact fun op member => absurd member List.not_mem_nil
    readOnly := fun reads => by cases reads }

/-- The capture's sweep completes the killed tier's commit, and the capture then
restores the identity the tier had published. -/
theorem idle_capture_restores : ¬ ∀ (lake : Dict Text (Disk Nat)) (jobs : List (Job Nat)),
    ∀ s ∈ (CronState.init lake).history jobs, ∀ t ∈ (CronState.init lake).history jobs, ∀ g,
      s.generation = some g → t.generation = some g → s.writes = t.writes := by
  intro claim
  have moved : ∃ s ∈ (CronState.init Dict.empty).history [killedTier, idleCapture],
      ∃ t ∈ (CronState.init Dict.empty).history [killedTier, idleCapture],
      s.generation = some (some 0) ∧ t.generation = some (some 0) ∧ s.writes ≠ t.writes := by
    decide +kernel
  obtain ⟨s, here, t, there, publishes, publishes', differ⟩ := moved
  exact differ (claim Dict.empty [killedTier, idleCapture] s here t there _ publishes publishes')

end AutoTrade
