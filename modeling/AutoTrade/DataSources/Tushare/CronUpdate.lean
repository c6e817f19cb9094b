import AutoTrade.DataSources.Tushare.Generation

/-!
# Lake jobs

`autotrade/data_sources/tushare/cron_update.py`, `_run`: one scheduled job under
the updater lock, as the list of its effects on disk. What a job's child
processes do to the lake is an input, any operations cut off anywhere; the
lock makes the jobs a sequence. A crash cuts a job's effects off, an exception
does too and leaves an error as the job's state.
-/

namespace AutoTrade

/-- `operation` of a scheduled job. -/
inductive LakeOperation where
  | update | downloadTier | downloadEventFlow | intradayByDate | pitEventPipeline
  | auctionCapture | auctionRecheck | eventAvailableAtRepair | textAvailableAtRepair
  | shareFloatComplete | auditEventFlow | auditText | revisionSentinel | auditFull | pruneReleases
  deriving DecidableEq

/-- `MUTATING_OPERATIONS`. -/
def LakeOperation.mutates : LakeOperation → Bool
  | .auditEventFlow | .auditText | .revisionSentinel | .auditFull | .pruneReleases => false
  | _ => true

/-- The renames, the operations that change what is visible of a partition. -/
def DiskOp.renames {Cell : Type} : DiskOp Cell → Bool
  | .replaceParquet _ | .replaceSidecar _ | .replaceTable _ => true
  | _ => false

/-- What one child process does and reports. -/
structure ChildRun (Cell : Type) where
  ops : List (Text × DiskOp Cell)
  outcomes : List PartitionOutcome
  returncode : Int

/-- `NO_MUTATION_RETRY_EXIT_CODE`. -/
def noMutationRetryExitCode : Int := 75

/-- `MUTATED_NOT_READY_RETRY_EXIT_CODE`. -/
def mutatedNotReadyRetryExitCode : Int := 76

/-- `NO_MUTATION_FAILURE_EXIT_CODE`. -/
def noMutationFailureExitCode : Int := 77

inductive JobStatus where
  | ok | notReady | error
  deriving DecidableEq

/-- What `should_skip_completed` reads of a job's state file. -/
structure JobState where
  status : JobStatus
  startDate : Text
  endDate : Text
  commands : List (List Text)
  configIdentity : Text
  deriving DecidableEq

/-- How a job ends: by itself, cut off after `n` of its effects, or by an
exception after `n` of them. -/
inductive Fate where
  | completes
  | crashes (n : Nat)
  | raises (n : Nat)

/-- Exit 75 asserts that nothing was written, where the operation enforces it. -/
def noMutationRetry (operation : LakeOperation) (commands : Nat) (returncode : Int) : Bool :=
  returncode = noMutationRetryExitCode && operation ∈ [.auctionCapture, .downloadEventFlow] &&
    commands = 1

/-- Exit 77 asserts the same of a failure; only the text tier enforces it. -/
def noMutationFailure (operation : LakeOperation) (tier : Text) (commands : Nat)
    (returncode : Int) : Bool :=
  returncode = noMutationFailureExitCode && operation = .downloadTier &&
    tier = "text_evidence".toList && commands = 1

/-- Exit 76 asserts that real writes landed while a required partition is unpublished. -/
def mutatedNotReady (operation : LakeOperation) (commands : Nat) (returncode : Int) : Bool :=
  returncode = mutatedNotReadyRetryExitCode && operation ∈ [.downloadEventFlow, .intradayByDate] &&
    commands = 1

/-- One invocation of the runner, with everything outside it. -/
structure Job (Cell : Type) where
  name : Text
  operation : LakeOperation
  tier : Text
  startDate : Text
  endDate : Text
  configIdentity : Text
  failFast : Bool := true
  skipIfAlreadyOk : Bool := true
  forceRun : Bool := false
  dryRun : Bool := false
  /-- What `is_sse_open_date` says, where the job asks. -/
  openDate : Option Bool := none
  /-- What the check before the lock finds, which other jobs may outdate. -/
  skippedEarly : Bool := false
  lockTimesOut : Bool := false
  /-- The staged files of each partition, in the order `os.walk` lists them. -/
  walk : List (Text × List Leftover)
  commands : List (List Text × ChildRun Cell)
  /-- The command at whose start `run_update` raises. -/
  raisesAt : Option Nat := none
  /-- Whether a dataset's `history_repull` policy is `on_restatement`. -/
  onRestatement : Text → Bool := fun _ => false
  /-- What the re-pull of a dataset does. -/
  repulls : Text → ChildRun Cell := fun _ => ⟨[], [], 0⟩
  /-- `dataset_vintage`, `none` where there is no such directory. -/
  vintages : Text → Option Text := fun _ => none
  now : Stamp
  fate : Fate := .completes
  /-- A vouched exit is truthful. -/
  truthful : ∀ argv child, commands = [(argv, child)] →
    (noMutationRetry operation 1 child.returncode ||
      noMutationFailure operation tier 1 child.returncode) = true →
    ∀ op ∈ child.ops, op.2.renames = false
  /-- What the operations that do not mutate the lake start leaves it alone. -/
  readOnly : operation.mutates = false → ∀ command ∈ commands, ∀ op ∈ command.2.ops,
    op.2.renames = false

/-- What a job does to the disk. -/
inductive Effect (Cell : Type) where
  | lake (path : Text) (op : DiskOp Cell)
  | record (record : GenerationRecord)
  | jobState (job : Text) (state : JobState)

/-- The raw lake with its record and the jobs' states. -/
structure CronState (Cell : Type) where
  lake : Dict Text (Disk Cell)
  record : Option GenerationRecord
  jobStates : Dict Text JobState
  /-- The jobs run so far, which number the UUIDs they draw. -/
  jobs : Nat
  /-- The renames that have changed a visible file so far. -/
  writes : Nat

variable {Cell : Type}

def Disk.empty : Disk Cell :=
  ⟨none, none, none, Dict.empty, Dict.empty, Dict.empty, Dict.empty, Dict.empty⟩

/-- Whether an operation changes a visible file: the renames whose staged file is there. -/
def Disk.changes (d : Disk Cell) : DiskOp Cell → Bool
  | .replaceParquet token => d.holds (.parquet token)
  | .replaceSidecar token => d.holds (.sidecar token)
  | .replaceTable token => d.holds (.table token)
  | _ => false

namespace CronState

/-- A lake before any job. -/
def init (lake : Dict Text (Disk Cell)) : CronState Cell := ⟨lake, none, Dict.empty, 0, 0⟩

def disk (s : CronState Cell) (path : Text) : Disk Cell := (s.lake.get? path).getD .empty

def apply (s : CronState Cell) : Effect Cell → CronState Cell
  | .lake path op =>
    { s with lake := s.lake.set path ((s.disk path).apply op)
             writes := s.writes + ((s.disk path).changes op).toNat }
  | .record record => { s with record := some record }
  | .jobState job state => { s with jobStates := s.jobStates.set job state }

/-- The generation a reader finds published. -/
def generation (s : CronState Cell) : Option GenerationId :=
  match s.record with
  | some record => if record.state = .committed then some record.generationId else none
  | none => none

end CronState

/-- The disk as storage that the effects of jobs change. -/
def cronDevice (Cell : Type) : Device (CronState Cell) (Effect Cell) :=
  ⟨CronState.apply, fun _ _ => []⟩

/-- The operations of `complete_interrupted_commits`, partition by partition. -/
def sweep (s : CronState Cell) : List (Text × List Leftover) → List (Effect Cell)
  | [] => []
  | (path, leftovers) :: rest =>
    let ops := (completeInterruptedCommits (s.disk path) leftovers).map (Effect.lake path)
    ops ++ sweep ((cronDevice Cell).run s ops) rest

/-- The children `run_update` started, and whether it raised. -/
structure Updated (Cell : Type) where
  children : List (ChildRun Cell)
  raised : Bool

/-- The loop of `run_update`. -/
def runUpdate (failFast : Bool) : Option Nat → List (ChildRun Cell) → Updated Cell
  | some 0, _ => ⟨[], true⟩
  | _, [] => ⟨[], false⟩
  | raisesAt, child :: rest =>
    if child.returncode ≠ 0 ∧ failFast then ⟨[child], false⟩
    else
      let later := runUpdate failFast (raisesAt.map (· - 1)) rest
      ⟨child :: later.children, later.raised⟩

/-- The return code of `run_update`. -/
def updateReturncode (codes : List Int) : Int :=
  let retryCodes := [mutatedNotReadyRetryExitCode, noMutationRetryExitCode]
  if codes ≠ [] ∧ ∀ code ∈ codes, code = 0 ∨ code ∈ retryCodes then
    (retryCodes.find? fun code => code ∈ codes).getD 0
  else if codes = [noMutationFailureExitCode] then noMutationFailureExitCode
  else 1

def ChildRun.effects (child : ChildRun Cell) : List (Effect Cell) :=
  child.ops.map fun op => .lake op.1 op.2

namespace Updated

def effects (updated : Updated Cell) : List (Effect Cell) :=
  updated.children.flatMap ChildRun.effects

/-- The run report the children wrote. -/
def outcomes (updated : Updated Cell) : List PartitionOutcome :=
  updated.children.flatMap ChildRun.outcomes

def returncode (updated : Updated Cell) : Int :=
  updateReturncode (updated.children.map ChildRun.returncode)

end Updated

/-- `finish_job` as it goes through the re-pulls a job owes. -/
structure Finishing (Cell : Type) where
  datasets : Dict Text DatasetEntry
  issues : List Issue
  restated : List Text
  commit : Bool
  effects : List (Effect Cell)

def repullKey (dataset : Text) : List Text := issueKey .historyRepull dataset []

/-- `run_history_repull`, where the dataset has a re-pull pending. -/
def repullDataset (job : Job Cell) (s : Finishing Cell) (dataset : Text) : Finishing Cell :=
  if s.issues.any fun issue => issue.key = repullKey dataset then
    let child := job.repulls dataset
    let folded := foldOutcomes s.datasets s.issues child.outcomes job.now
    let defective := folded.issues.any fun issue => issue.kind = .defect ∧ issue.dataset = dataset
    { datasets := folded.datasets
      issues := if updateReturncode [child.returncode] = 0 ∧ ¬ defective then
          folded.issues.filter fun issue => issue.key ≠ repullKey dataset
        else folded.issues
      restated := folded.restated.foldl addTo s.restated
      commit := true
      effects := s.effects ++ child.effects }
  else s

/-- The re-pulls that the restatements of a job open. -/
def openRepulls (job : Job Cell) (issues : List Issue) (restated : List Text) : List Issue :=
  sortIssues (issues ++ (((sortTexts restated).filter fun dataset => job.onRestatement dataset ∧
    ¬ issues.any fun issue => issue.key = repullKey dataset).map fun dataset =>
      ⟨.historyRepull, dataset, [], job.now, [], []⟩))

/-- `record_vintages`. -/
def recordVintages (job : Job Cell) (datasets : Dict Text DatasetEntry) (names : List Text) :
    Dict Text DatasetEntry :=
  (sortTexts names).foldl (fun datasets name =>
    match job.vintages name with
    | none => datasets
    | some vintage =>
      datasets.set name { (datasets.get? name).getD .new with vintage := some vintage }) datasets

/-- `finish_job`; a commit takes `fresh` as its id. -/
def finishJob (job : Job Cell) (fresh : WriteId) (previous : Option GenerationRecord)
    (transaction : Transaction) (outcomes : List PartitionOutcome) (commit repull : Bool) :
    List (Effect Cell) :=
  let folded := foldOutcomes (previousDatasets previous) (previousIssues previous) outcomes job.now
  let start : Finishing Cell :=
    ⟨folded.datasets, openRepulls job folded.issues folded.restated, folded.restated, commit, []⟩
  let left := if repull then (sortTexts folded.pulled).foldl (repullDataset job) start else start
  let names := folded.pulled.filter fun name =>
    ((left.datasets.get? name).bind DatasetEntry.vintage).isNone
  let datasets := recordVintages job left.datasets (names.foldl addTo left.restated)
  left.effects ++
    [.record (finishRawGenerationUpdate previous transaction fresh job.now left.commit datasets
      left.issues)]

def Job.argvs (job : Job Cell) : List (List Text) := job.commands.map Prod.fst

def Job.transaction (job : Job Cell) : Transaction := ⟨job.name, job.startDate, job.endDate, none⟩

/-- `record_job_state`. -/
def Job.recordState (job : Job Cell) (status : JobStatus) : Effect Cell :=
  .jobState job.name ⟨status, job.startDate, job.endDate, job.argvs, job.configIdentity⟩

/-- `should_skip_completed`. -/
def Job.shouldSkipCompleted (job : Job Cell) (state : Option JobState) : Bool :=
  job.skipIfAlreadyOk && !job.forceRun && state.any fun state =>
    state.startDate = job.startDate ∧ state.endDate = job.endDate ∧ state.status = .ok ∧
      state.commands = job.argvs ∧ state.configIdentity = job.configIdentity

/-- `generation_committed`, which an absent record and a job that does not write count as. -/
def Job.generationCommitted (job : Job Cell) (record : Option GenerationRecord) : Bool :=
  if job.operation.mutates then record.all fun record => record.state = .committed else true

/-- The status a job's return code is recorded as. -/
def Job.status (job : Job Cell) (returncode : Int) : JobStatus :=
  if returncode = 0 then .ok
  else if noMutationRetry job.operation job.commands.length returncode ||
      mutatedNotReady job.operation job.commands.length returncode then .notReady
  else .error

/-- Whether a return code vouches that nothing was written. -/
def Job.vouched (job : Job Cell) (returncode : Int) : Bool :=
  noMutationRetry job.operation job.commands.length returncode ||
    noMutationFailure job.operation job.tier job.commands.length returncode

/-- `run_update` over the job's commands. -/
def Job.update (job : Job Cell) : Updated Cell :=
  runUpdate job.failFast job.raisesAt (job.commands.map Prod.snd)

/-- A job that writes the lake: the record opened, the children, the record closed. -/
def Job.mutating (job : Job Cell) (s : CronState Cell) (commit repull : Bool)
    (status : JobStatus) : List (Effect Cell) :=
  [.record (beginRawGenerationUpdate s.record job.transaction job.now)] ++ job.update.effects ++
    finishJob job s.jobs s.record job.transaction job.update.outcomes commit repull ++
    [job.recordState status]

/-- A job once it holds the lock and has swept the lake. -/
def Job.body (job : Job Cell) (s : CronState Cell) : List (Effect Cell) :=
  let code := job.update.returncode
  if job.shouldSkipCompleted (s.jobStates.get? job.name) && job.generationCommitted s.record then []
  else if job.operation.mutates then
    if job.update.raised then job.mutating s true false .error
    else job.mutating s (!job.vouched code) true (job.status code)
  else job.update.effects ++ [job.recordState (if job.update.raised then .error else job.status code)]

/-- The effects of `_run`: the sweep, where the job gets to it, and the rest. -/
def Job.effects (job : Job Cell) (s : CronState Cell) : List (Effect Cell) × List (Effect Cell) :=
  if job.dryRun then ([], [])
  else if job.openDate = some false then ([], [job.recordState .ok])
  else if job.skippedEarly then ([], [])
  else if job.lockTimesOut then ([], [job.recordState .error])
  else
    let swept := sweep s job.walk
    (swept, job.body ((cronDevice Cell).run s swept))

/-- What a job carries out, cut off by its fate. -/
def Job.executed (job : Job Cell) (s : CronState Cell) : List (Effect Cell) :=
  let effects := (job.effects s).1 ++ (job.effects s).2
  match job.fate with
  | .completes => effects
  | .crashes n => effects.take n
  | .raises n => effects.take n ++ [job.recordState .error]

/-- What a job carries out of its sweep. -/
def Job.swept (job : Job Cell) (s : CronState Cell) : List (Effect Cell) :=
  match job.fate with
  | .completes => (job.effects s).1
  | .crashes n | .raises n => (job.effects s).1.take n

/-- The state a job leaves. -/
def CronState.step (s : CronState Cell) (job : Job Cell) : CronState Cell :=
  { (cronDevice Cell).run s (job.executed s) with jobs := s.jobs + 1 }

/-- Every moment of a sequence of jobs, between any two of their effects. -/
def CronState.history (s : CronState Cell) : List (Job Cell) → List (CronState Cell)
  | [] => [s]
  | job :: jobs => (cronDevice Cell).crashes s (job.executed s) ++ (s.step job).history jobs

/-- The jobs of a sequence, each with the state it starts from. -/
def CronState.starts (s : CronState Cell) : List (Job Cell) → List (CronState Cell × Job Cell)
  | [] => []
  | job :: jobs => (s, job) :: (s.step job).starts jobs

end AutoTrade
