import AutoTrade.Misc.Dict
import AutoTrade.Common.JsonLines
import AutoTrade.Pipelines.StepTree

/-!
# Recorded steps

A completed validation is recorded in three places: the session's tree, a
host-only sidecar, and the experiment's published tree, which a later attempt
reads back with the sidecars. An attempt may be killed after any of its writes.
-/

namespace AutoTrade.RecordedSteps

/-- What the tree cannot carry about a validation. -/
structure Sidecar where
  revisionId : Text
  span : Text
  summary : JsonObject
  resultRef : Text
  control : Bool
  batchId : Text

/-- A validation as a later attempt reads it back. -/
structure RecordedStep where
  stepId : NodeId
  sidecar : Sidecar
  fingerprint : Text

/-- The experiment's `steps/tree.json`. -/
inductive Published where
  | absent
  /-- A copy of it was cut short. -/
  | unreadable
  | tree (tree : StepTree)

structure Disk where
  /-- The fingerprints of the committed revisions. -/
  revisions : Dict Text Text := .empty
  results : List Text := []
  /-- The tree in the session root, which outlives its attempts. -/
  sessionTree : Option StepTree := none
  sidecars : Dict NodeId Sidecar := .empty
  published : Published := .absent

inductive Write where
  /-- The session's `tree.json` is replaced; `recording` a completed validation
      whose sidecar is still to be written. -/
  | saveTree (tree : StepTree) (recording : Bool)
  | writeSidecar (nodeId : NodeId) (sidecar : Sidecar)
  | removePublished
  /-- The first bytes of a `tree.json` that cannot be linked. -/
  | beginCopy
  | publish

def Disk.apply (d : Disk) : Write → Disk
  | .saveTree tree _ => { d with sessionTree := some tree }
  | .writeSidecar nodeId sidecar => { d with sidecars := d.sidecars.set nodeId sidecar }
  | .removePublished => { d with published := .absent }
  | .beginCopy => { d with published := .unreadable }
  | .publish => { d with published := (d.sessionTree.map Published.tree).getD .absent }

/-- `publish_tree`, by hard links or by copies where a link fails. -/
def publishWrites (linked : Bool) : List Write :=
  if linked then [.removePublished, .publish] else [.removePublished, .beginCopy, .publish]

inductive LoadError where
  | treeUnreadable
  | sidecarMissing
  | resultMissing
  | manifestMissing
  deriving DecidableEq

/-- One node of `load_recorded_steps`. -/
def loadStep (d : Disk) (node : StepNode) : Except LoadError RecordedStep :=
  match d.sidecars.get? node.nodeId with
  | none => .error .sidecarMissing
  | some sidecar =>
    if sidecar.resultRef ∈ d.results then
      match d.revisions.get? sidecar.revisionId with
      | none => .error .manifestMissing
      | some fingerprint => .ok ⟨node.nodeId, sidecar, fingerprint⟩
    else .error .resultMissing

/-- `load_recorded_steps`. -/
def loadRecordedSteps (d : Disk) : Except LoadError (List RecordedStep) :=
  match d.published with
  | .absent => .ok []
  | .unreadable => .error .treeUnreadable
  | .tree tree => tree.recordedNodes.mapM (loadStep d)

inductive Event where
  /-- A candidate's revision is committed. -/
  | commit (revisionId fingerprint : Text)
  /-- A replay leaves its result. -/
  | replay (resultRef : Text)
  /-- `record_validation`, killed after so many of its writes or not at all. -/
  | recordValidation (nodeId : NodeId) (createdAt : Text) (sidecar : Sidecar) (linked : Bool)
      (killedAfter : Option Nat)
  /-- A failed candidate's dead end, recorded and published. -/
  | recordFailure (nodeId : NodeId) (batchId createdAt : Text) (linked : Bool)
      (killedAfter : Option Nat)
  | rollback (nodeId : Option NodeId)
  /-- The tree is published as the session ends. -/
  | publish (linked : Bool) (killedAfter : Option Nat)
  | kill
  /-- The next attempt loads the recorded steps and finds its tree. -/
  | resume

structure World where
  disk : Disk := {}
  live : Bool := false

/-- The writes that are made. -/
def survivors (writes : List Write) : Option Nat → List Write
  | none => writes
  | some n => writes.take n

def Disk.tree (d : Disk) : StepTree := d.sessionTree.getD {}

def World.write (w : World) (writes : List Write) (killedAfter : Option Nat) : World where
  disk := (survivors writes killedAfter).foldl Disk.apply w.disk
  live := killedAfter.isNone

/-- The writes of an operation of the live attempt. -/
def Disk.writes (d : Disk) : Event → List Write
  | .recordValidation nodeId createdAt sidecar linked _ =>
    if (d.revisions.get? sidecar.revisionId).isSome ∧ sidecar.resultRef ∈ d.results then
      match d.tree.recordStep nodeId sidecar.revisionId sidecar.batchId createdAt with
      | .error _ => []
      | .ok tree => .saveTree tree true :: .writeSidecar nodeId sidecar :: publishWrites linked
    else []
  | .recordFailure nodeId batchId createdAt linked _ =>
    match d.tree.recordFailedAttempt nodeId batchId createdAt with
    | .error _ => []
    | .ok tree => .saveTree tree false :: publishWrites linked
  | .rollback nodeId =>
    match d.tree.setPosition nodeId with
    | .error _ => []
    | .ok tree => [.saveTree tree false]
  | .publish linked _ => if d.sessionTree.isSome then publishWrites linked else []
  | _ => []

/-- Where the operation is killed. -/
def Event.killedAfter : Event → Option Nat
  | .recordValidation _ _ _ _ killedAfter => killedAfter
  | .recordFailure _ _ _ _ killedAfter => killedAfter
  | .publish _ killedAfter => killedAfter
  | _ => none

/-- `_install_step_tree`: the predecessor's tree is kept, else the experiment's is taken. -/
def Disk.install (d : Disk) : Disk :=
  match d.sessionTree, d.published with
  | none, .tree tree => { d with sessionTree := some tree }
  | _, _ => d

def World.step (w : World) : Event → World
  | .commit revisionId fingerprint =>
    { w with disk := { w.disk with revisions := w.disk.revisions.set revisionId fingerprint } }
  | .replay resultRef => { w with disk := { w.disk with results := w.disk.results ++ [resultRef] } }
  | .kill => { w with live := false }
  | .resume =>
    match w.live, loadRecordedSteps w.disk with
    | false, .ok _ => { disk := w.disk.install, live := true }
    | _, _ => w
  | event => if w.live then w.write (w.disk.writes event) event.killedAfter else w

def World.run (w : World) (events : List Event) : World := events.foldl World.step w

end AutoTrade.RecordedSteps
