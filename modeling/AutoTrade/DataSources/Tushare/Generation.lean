import AutoTrade.Environment.Data.Partition

/-!
# The generation record of the raw lake

`autotrade/data_sources/tushare/cron_update.py`: the record a job opens before it
writes and closes when it ends, and the partition outcomes folded into it. The
lines a job prints are left out.
-/

namespace AutoTrade

/-- `generation_id`, absent before the first commit. -/
abbrev GenerationId := Option WriteId

/-- `GENERATION_UPDATING` and `GENERATION_COMMITTED`. -/
inductive GenerationState where
  | updating | committed
  deriving DecidableEq

structure Transaction where
  job : Text
  startDate : Text
  endDate : Text
  startedAt : Option Stamp
  deriving DecidableEq

structure DatasetEntry where
  refreshedAt : Option Stamp
  vintage : Option Text
  deriving DecidableEq

def DatasetEntry.new : DatasetEntry := ⟨none, none⟩

inductive IssueKind where
  | defect | staged | historyRepull
  deriving DecidableEq

def IssueKind.text : IssueKind → Text
  | .defect => "defect".toList
  | .staged => "staged".toList
  | .historyRepull => "history_repull".toList

structure Issue where
  kind : IssueKind
  dataset : Text
  partition : Text
  since : Stamp
  detail : Text
  version : Text
  deriving DecidableEq

/-- `_issue_key`. -/
def issueKey (kind : IssueKind) (dataset partition : Text) : List Text :=
  [kind.text, dataset, partition]

def Issue.key (issue : Issue) : List Text := issueKey issue.kind issue.dataset issue.partition

/-- `sorted(issues, key=_issue_key)`. -/
def sortIssues (issues : List Issue) : List Issue :=
  issues.insertionSort fun issue issue' => issue.key ≤ issue'.key

/-- `raw_generation.json`. -/
structure GenerationRecord where
  state : GenerationState
  generationId : GenerationId
  completedAt : Option Stamp
  updatedAt : Option Stamp
  transaction : Option Transaction
  datasets : Dict Text DatasetEntry
  issues : List Issue
  versionedSince : Option Text

/-- `previous.get("state") == GENERATION_COMMITTED`. -/
def wasCommitted (previous : Option GenerationRecord) : Bool :=
  previous.any fun record => record.state = .committed

/-- The id a later record may restore. -/
def previousId (previous : Option GenerationRecord) : GenerationId :=
  previous.bind GenerationRecord.generationId

def previousDatasets (previous : Option GenerationRecord) : Dict Text DatasetEntry :=
  (previous.map GenerationRecord.datasets).getD Dict.empty

def previousIssues (previous : Option GenerationRecord) : List Issue :=
  (previous.map GenerationRecord.issues).getD []

/-- `begin_raw_generation_update`. -/
def beginRawGenerationUpdate (previous : Option GenerationRecord) (transaction : Transaction)
    (now : Stamp) : GenerationRecord :=
  { state := .updating
    generationId := previousId previous
    completedAt := previous.bind GenerationRecord.completedAt
    updatedAt := some now
    transaction := some { transaction with startedAt := some now }
    datasets := previousDatasets previous
    issues := previousIssues previous
    versionedSince := previous.bind GenerationRecord.versionedSince }

/-- `finish_raw_generation_update`; `fresh` is the UUID a commit takes. -/
def finishRawGenerationUpdate (previous : Option GenerationRecord) (transaction : Transaction)
    (fresh : WriteId) (now : Stamp) (commit : Bool) (datasets : Dict Text DatasetEntry)
    (issues : List Issue) : GenerationRecord :=
  let commit := commit || !wasCommitted previous
  { state := .committed
    generationId := if commit then some fresh else previousId previous
    completedAt := if commit then some now else previous.bind GenerationRecord.completedAt
    updatedAt := none
    transaction := if commit then some transaction else previous.bind GenerationRecord.transaction
    datasets, issues
    versionedSince := previous.bind GenerationRecord.versionedSince }

/-- What a write came to; `landed` stands for every kind the fold does not name. -/
inductive OutcomeKind where
  | complete | defect | staged | restated | landed
  deriving DecidableEq

/-- A line of a run report. -/
structure PartitionOutcome where
  dataset : Text
  partition : Text
  kind : OutcomeKind
  detail : Text
  version : Text
  reportedAt : Stamp

/-- The sets and the open issues `fold_outcomes` carries through a report. -/
structure Folding where
  openIssues : Dict (List Text) Issue
  pulled : List Text
  complete : List Text
  withheld : List Text
  restated : List Text

/-- `set.add`. -/
def addTo (names : List Text) (name : Text) : List Text :=
  if name ∈ names then names else names ++ [name]

/-- The issue a defective or staged partition opens, or keeps open. -/
def Folding.opened (s : Folding) (kind : IssueKind) (o : PartitionOutcome) : Folding :=
  let key := issueKey kind o.dataset o.partition
  let issue := (s.openIssues.get? key).getD ⟨kind, o.dataset, o.partition, o.reportedAt, [], []⟩
  { s with
    openIssues := s.openIssues.set key { issue with detail := o.detail, version := o.version }
    withheld := addTo s.withheld o.dataset }

def Folding.closed (s : Folding) (o : PartitionOutcome) : Folding :=
  let kept := s.openIssues.erase (issueKey .defect o.dataset o.partition)
  { s with openIssues := kept.erase (issueKey .staged o.dataset o.partition) }

def foldOutcome (s : Folding) (o : PartitionOutcome) : Folding :=
  let s := { s with pulled := addTo s.pulled o.dataset }
  match o.kind with
  | .complete => { s with complete := addTo s.complete o.dataset }
  | .defect => s.opened .defect o
  | .staged => s.opened .staged o
  | .restated => { s.closed o with restated := addTo s.restated o.dataset }
  | .landed => s.closed o

/-- What a batch of outcomes makes of a record. -/
structure Folded where
  datasets : Dict Text DatasetEntry
  issues : List Issue
  pulled : List Text
  restated : List Text

/-- `fold_outcomes`. -/
def foldOutcomes (datasets : Dict Text DatasetEntry) (issues : List Issue)
    (outcomes : List PartitionOutcome) (now : Stamp) : Folded :=
  let folding := outcomes.foldl foldOutcome
    ⟨Dict.ofList (issues.map fun issue => (issue.key, issue)), [], [], [], []⟩
  { datasets := (folding.complete.filter (· ∉ folding.withheld)).foldl
      (fun datasets name => datasets.set name
        { (datasets.get? name).getD .new with refreshedAt := some now }) datasets
    issues := sortIssues folding.openIssues.values
    pulled := folding.pulled
    restated := folding.restated }

end AutoTrade
