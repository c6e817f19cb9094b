import AutoTrade.Pipelines.StepTree

/-!
# The validate allowance

A session may make so many validate calls before its first test and between two
tests. It counts the calls as it makes them; an attempt that resumes counts the
batches the step tree holds since the ledger's last test.
-/

namespace AutoTrade.ValidateAllowance

structure Rules where
  validatesPerStep : Nat
  recordFailedAttempts : Bool

inductive FailureCause where
  | strategy
  | environment
  deriving DecidableEq

inductive Outcome where
  | completed (revisionId : Text)
  | failed (cause : FailureCause)
  deriving DecidableEq

/-- A candidate's replay, and the clock as its node is created. -/
structure Replayed where
  outcome : Outcome
  createdAt : Text
  deriving DecidableEq

/-- The session's tree and the ledger's tests, and the attempt that works on them. -/
structure Session where
  tree : StepTree := {}
  /-- The `recorded_at` of every test step. -/
  tests : List Text := []
  runRef : Text
  /-- The runs so far. -/
  runRefs : List Text
  candidatesStarted : Nat := 0
  validatesInInterval : Nat := 0
  /-- The calls that were counted since the last test. -/
  counted : Nat := 0

inductive Event where
  /-- A validate call that none of its checks refused, but for the allowance. -/
  | validate (batchId : Text) (candidates : List Replayed)
  /-- A test, recorded when it completes. -/
  | test (recordedAt : Option Text)
  /-- The agent moves the tree's position. -/
  | rollback (nodeId : Option NodeId)
  /-- The attempt ends, the next one resumes. -/
  | resume (runRef : Text)

def Event.isResume : Event → Bool
  | .resume _ => true
  | _ => false

def Rules.records (rules : Rules) (candidate : Replayed) : Bool :=
  match candidate.outcome with
  | .completed _ => true
  | .failed _ => rules.recordFailedAttempts

/-- A candidate's node hangs off the node its batch started at. -/
def recordCandidate (rules : Rules) (parent : Option NodeId) (nodeId : NodeId) (batchId : Text)
    (tree : StepTree) (candidate : Replayed) : Except StepTreeError StepTree := do
  let tree ← tree.setPosition parent
  match candidate.outcome with
  | .completed revisionId => tree.recordStep nodeId revisionId batchId candidate.createdAt
  | .failed _ =>
    if rules.recordFailedAttempts then
      tree.recordFailedAttempt nodeId batchId candidate.createdAt
    else .ok tree

/-- The candidates of a batch, up to one the tree refuses; then the position
    comes back to where the batch started. -/
def recordBatch (rules : Rules) (parent : Option NodeId) (runRef batchId : Text) :
    StepTree → Nat → List Replayed → StepTree
  | tree, _, [] => { tree with currentNodeId := parent }
  | tree, result, candidate :: rest =>
    match recordCandidate rules parent ⟨runRef, result⟩ batchId tree candidate with
    | .error _ => { tree with currentNodeId := parent }
    | .ok tree => recordBatch rules parent runRef batchId tree (result + 1) rest

/-- `ValidateTool._invoke_exempt`; a batch holds a candidate, and its id is new. -/
def Session.validate (rules : Rules) (s : Session) (batchId : Text) (candidates : List Replayed) :
    Session :=
  if rules.validatesPerStep ≤ s.validatesInInterval then s
  else if candidates = [] ∨ batchId = [] ∨ batchId ∈ s.tree.nodes.map StepNode.batchId then s
  else { s with
    candidatesStarted := s.candidatesStarted + candidates.length
    validatesInInterval := s.validatesInInterval + 1
    counted := s.counted + 1
    tree := recordBatch rules s.tree.currentNodeId s.runRef batchId s.tree
      (s.candidatesStarted + 1) candidates }

def Session.test (s : Session) (recordedAt : Text) : Session :=
  { s with tests := s.tests ++ [recordedAt], validatesInInterval := 0, counted := 0 }

/-- The next attempt, under a run of its own. -/
def Session.resume (s : Session) (runRef : Text) : Session :=
  if runRef ∈ s.runRefs then s
  else { s with
    runRef
    runRefs := runRef :: s.runRefs
    candidatesStarted := 0
    validatesInInterval := s.tree.validatesSince s.tests.getLast? }

def Session.step (rules : Rules) (s : Session) : Event → Session
  | .validate batchId candidates => s.validate rules batchId candidates
  | .test none => s
  | .test (some recordedAt) => s.test recordedAt
  | .rollback nodeId =>
    match s.tree.setPosition nodeId with
    | .error _ => s
    | .ok tree => { s with tree }
  | .resume runRef => s.resume runRef

def Session.run (rules : Rules) (s : Session) (events : List Event) : Session :=
  events.foldl (Session.step rules) s

def Session.start (runRef : Text) : Session := { runRef, runRefs := [runRef] }

end AutoTrade.ValidateAllowance
