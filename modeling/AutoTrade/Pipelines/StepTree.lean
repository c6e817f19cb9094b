import AutoTrade.Common.Text
import Mathlib.Data.List.Dedup

/-!
# The step tree

A research session's validations, one node each: a completed one with its
snapshot, a failed one as a dead end. The tree is the session's own and outlives
its attempts; `tree.json` is replaced as a whole by every change.
-/

namespace AutoTrade

/-- `build_node_id` within one session: the run's reference and the number of
    the result. -/
structure NodeId where
  runRef : Text
  result : Nat
  deriving DecidableEq

structure StepNode where
  nodeId : NodeId
  parentNodeId : Option NodeId
  /-- The revision it replayed, none for a failed attempt. -/
  revisionId : Option Text
  completeValidation : Bool
  batchId : Text
  createdAt : Text
  deriving DecidableEq

structure StepTree where
  currentNodeId : Option NodeId := none
  nodes : List StepNode := []
  deriving DecidableEq

inductive StepTreeError where
  | nodeExists
  | unknownNode
  deriving DecidableEq

namespace StepTree

def hasNode (tree : StepTree) (nodeId : NodeId) : Bool :=
  tree.nodes.any fun node => node.nodeId = nodeId

def recordStep (tree : StepTree) (nodeId : NodeId) (revisionId batchId createdAt : Text) :
    Except StepTreeError StepTree :=
  if tree.hasNode nodeId then .error .nodeExists
  else .ok
    { currentNodeId := some nodeId
      nodes := tree.nodes ++
        [{ nodeId, parentNodeId := tree.currentNodeId, revisionId := some revisionId
           completeValidation := true, batchId, createdAt }] }

/-- A dead end; it leaves the position where it is. -/
def recordFailedAttempt (tree : StepTree) (nodeId : NodeId) (batchId createdAt : Text) :
    Except StepTreeError StepTree :=
  if tree.hasNode nodeId then .error .nodeExists
  else .ok
    { tree with
      nodes := tree.nodes ++
        [{ nodeId, parentNodeId := tree.currentNodeId, revisionId := none
           completeValidation := false, batchId, createdAt }] }

def setPosition (tree : StepTree) (nodeId : Option NodeId) : Except StepTreeError StepTree :=
  if nodeId.all tree.hasNode then .ok { tree with currentNodeId := nodeId }
  else .error .unknownNode

/-- The complete validations, in the order of the tree. -/
def recordedNodes (tree : StepTree) : List StepNode := tree.nodes.filter StepNode.completeValidation

/-- Created after `since`; every node is, where there is none. -/
def newerThan (since : Option Text) (createdAt : Text) : Bool := since.all fun t => t < createdAt

/-- `_validates_since`. -/
def validatesSince (tree : StepTree) (since : Option Text) : Nat :=
  ((tree.nodes.filter fun node => node.batchId ≠ [] && newerThan since node.createdAt).map
    StepNode.batchId).dedup.length

variable {nodeId : NodeId}

theorem hasNode_iff {tree : StepTree} :
    tree.hasNode nodeId = true ↔ ∃ node ∈ tree.nodes, node.nodeId = nodeId := by
  unfold hasNode
  simp only [List.any_eq_true, decide_eq_true_eq]

variable {tree tree' : StepTree}

theorem recordStep_eq_ok {revisionId batchId createdAt : Text} :
    tree.recordStep nodeId revisionId batchId createdAt = .ok tree' ↔
      tree.hasNode nodeId = false ∧ tree' =
        { currentNodeId := some nodeId
          nodes := tree.nodes ++
            [{ nodeId, parentNodeId := tree.currentNodeId, revisionId := some revisionId
               completeValidation := true, batchId, createdAt }] } := by
  unfold recordStep
  cases tree.hasNode nodeId <;> simp [eq_comm]

theorem recordFailedAttempt_eq_ok {batchId createdAt : Text} :
    tree.recordFailedAttempt nodeId batchId createdAt = .ok tree' ↔
      tree.hasNode nodeId = false ∧ tree' =
        { tree with
          nodes := tree.nodes ++
            [{ nodeId, parentNodeId := tree.currentNodeId, revisionId := none
               completeValidation := false, batchId, createdAt }] } := by
  unfold recordFailedAttempt
  cases tree.hasNode nodeId <;> simp [eq_comm]

theorem setPosition_eq_ok {nodeId : Option NodeId} :
    tree.setPosition nodeId = .ok tree' ↔
      nodeId.all tree.hasNode = true ∧ tree' = { tree with currentNodeId := nodeId } := by
  unfold setPosition
  cases nodeId.all tree.hasNode <;> simp [eq_comm]

end StepTree

end AutoTrade
