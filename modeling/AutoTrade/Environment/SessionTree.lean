import AutoTrade.Common.Json
import AutoTrade.Environment.Redaction
import AutoTrade.Environment.Strategy
import AutoTrade.Misc.Lineage

/-!
# The tree of a session's Steps

`tree.json` with the names its nodes go by: nodes are added under the current
position, recorded or failed, `step_rollback` moves the position to a recorded one,
and the file is read back as the host wrote it, redacted.
-/

namespace AutoTrade.SessionTree

inductive RefNamespace where
  | session
  | strategy
  | run
  | trace
  deriving DecidableEq

/-- `AGENT_REF_PREFIXES`. -/
def RefNamespace.refPrefix : RefNamespace → Text
  | session => "session_ref".toList
  | strategy => "strategy_ref".toList
  | run => "run_ref".toList
  | trace => "trace_ref".toList

def isHexDigit (c : Char) : Bool := c ∈ "0123456789abcdef".toList

/-- The canonical text of a version 4 UUID. -/
def isUuid4 (token : Text) : Bool :=
  token.length = 36 &&
    (List.range 36).all fun i =>
      let c := token.getD i ' '
      if i ∈ [8, 13, 18, 23] then c = '-'
      else if i = 14 then c = '4'
      else if i = 19 then c ∈ ['8', '9', 'a', 'b']
      else isHexDigit c

/-- A reference `AgentRefStore.get_or_create` makes, one `_validate_ref` takes. -/
structure AgentRef (refs : RefNamespace) where
  token : Text
  canonical : isUuid4 token = true

def AgentRef.text {refs : RefNamespace} (ref : AgentRef refs) : Text :=
  refs.refPrefix ++ '_' :: ref.token

/-- `f"{n:0{width}d}"`. -/
def zeroPadded (width n : Nat) : Text :=
  List.replicate (width - (JsonNumber.digitsOf n).length) '0' ++ JsonNumber.digitsOf n

/-- `valid_NNN`, as `reserve` names a result. -/
def resultName (n : Nat) : Text := "valid_".toList ++ zeroPadded 3 n

/-- `Stage.RESEARCH`. -/
def researchStage : Text := "research".toList

def nodeIdSeparator : Text := "__".toList

/-- `build_node_id`. -/
def buildNodeId (epochId sessionRef runId resultName : Text) : Text :=
  nodeIdSeparator.intercalate [epochId, sessionRef, runId, resultName]

/-- A text up to the first separator. -/
def untilSeparator : Text → Text
  | '_' :: '_' :: _ => []
  | c :: rest => c :: untilSeparator rest
  | [] => []

/-- `node_handle`: what follows the last separator; the separator reads the same
    backwards. -/
def nodeHandle (nodeId : Text) : Text := (untilSeparator nodeId.reverse).reverse

/-- `unique_handles`, at one of the ids. -/
def uniqueHandle (nodeIds : List Text) (nodeId : Text) : Option Text :=
  if (nodeIds.map nodeHandle).count (nodeHandle nodeId) = 1 then some (nodeHandle nodeId) else none

structure Node where
  nodeId : Text
  parentNodeId : Option Text
  sessionRef : Text
  revisionId : Option Text
  completeValidation : Bool
  /-- `status` is `failed`. -/
  failed : Bool
  totalReturn : Option ℚ
  sharpe : Option ℚ

structure Tree where
  currentNodeId : Option Text := none
  nodes : List Node := []

inductive TreeError where
  | nodeExists (nodeId : Text)
  | unknownNode (nodeId : Text)
  | unresolved (reference : Text)
  | otherSession
  | notEvaluated

namespace Tree

def hasNode (tree : Tree) (nodeId : Text) : Bool := tree.nodes.any fun node => node.nodeId = nodeId

/-- `_new_node_id`. -/
def newNodeId (tree : Tree) (epochId sessionRef runId resultName : Text) : Except TreeError Text :=
  let nodeId := buildNodeId epochId sessionRef runId resultName
  if tree.hasNode nodeId then .error (.nodeExists nodeId) else .ok nodeId

/-- `record_step`. -/
def recordStep (tree : Tree) (epochId sessionRef runId resultName revisionId : Text)
    (totalReturn sharpe : Option ℚ) : Except TreeError Tree := do
  let nodeId ← tree.newNodeId epochId sessionRef runId resultName
  return { currentNodeId := some nodeId
           nodes := tree.nodes ++
             [{ nodeId, parentNodeId := tree.currentNodeId, sessionRef, revisionId := some revisionId
                completeValidation := true, failed := false, totalReturn, sharpe }] }

/-- `record_failed_attempt`; the position stays where it is. -/
def recordFailedAttempt (tree : Tree) (epochId sessionRef runId resultName : Text)
    (totalReturn sharpe : Option ℚ) : Except TreeError Tree := do
  let nodeId ← tree.newNodeId epochId sessionRef runId resultName
  return { tree with
           nodes := tree.nodes ++
             [{ nodeId, parentNodeId := tree.currentNodeId, sessionRef, revisionId := none
                completeValidation := false, failed := true, totalReturn, sharpe }] }

def setPosition (tree : Tree) : Option Text → Except TreeError Tree
  | none => .ok { tree with currentNodeId := none }
  | some nodeId =>
    if tree.hasNode nodeId then .ok { tree with currentNodeId := some nodeId }
    else .error (.unknownNode nodeId)

def sessionNodeIds (tree : Tree) (sessionRef : Text) : List Text :=
  (tree.nodes.filter fun node => node.sessionRef = sessionRef).map Node.nodeId

def getNode (tree : Tree) (nodeId : Text) : Except TreeError Node :=
  match tree.nodes.find? fun node => node.nodeId = nodeId with
  | some node => .ok node
  | none => .error (.unknownNode nodeId)

/-- `resolve_node_reference`. -/
def resolveNodeReference (reference : Text) (nodeIds : List Text) : Except TreeError Text :=
  if reference ∈ nodeIds then .ok reference
  else
    match nodeIds.filter fun nodeId => nodeHandle nodeId = reference with
    | [nodeId] => .ok nodeId
    | _ => .error (.unresolved reference)

/-- `session_node_reference`. -/
def sessionNodeReference (tree : Tree) (reference sessionRef : Text) : Except TreeError Text :=
  if tree.hasNode reference then .ok reference
  else resolveNodeReference reference (tree.sessionNodeIds sessionRef)

/-- `session_handles`, at one of the ids. -/
def sessionHandle (tree : Tree) (sessionRef nodeId : Text) : Text :=
  (uniqueHandle (tree.sessionNodeIds sessionRef) nodeId).getD nodeId

/-- `StepRollbackTool.invoke`, whose copies went through. -/
def rollBack (tree : Tree) (sessionRef reference : Text) : Except TreeError Tree := do
  let nodeId ← tree.sessionNodeReference reference sessionRef
  let node ← tree.getNode nodeId
  if node.sessionRef ≠ sessionRef then .error .otherSession
  else if !node.completeValidation || (node.revisionId.getD []).isEmpty then .error .notEvaluated
  else tree.setPosition (some nodeId)

/-- What `save` writes and `StepTree(root)` reads: every text redacted. -/
def saved (isAlnum : Char → Bool) (tree : Tree) : Tree :=
  { currentNodeId := tree.currentNodeId.map (redact isAlnum)
    nodes := tree.nodes.map fun node =>
      { node with
        nodeId := redact isAlnum node.nodeId
        parentNodeId := node.parentNodeId.map (redact isAlnum)
        sessionRef := redact isAlnum node.sessionRef
        revisionId := node.revisionId.map (redact isAlnum) } }

/-- `f"{x:.4f}"`. -/
def fourDecimals (x : ℚ) : Text :=
  let scaled := (roundHalfEven (|x| * 10000)).toNat
  (if x < 0 then ['-'] else []) ++
    JsonNumber.digitsOf (scaled / 10000) ++ '.' :: zeroPadded 4 (scaled % 10000)

/-- The metrics of a line. -/
def metricsText (node : Node) : Text :=
  let part (label : String) (value : Option ℚ) : List Text :=
    (value.map fun x => label.toList ++ '=' :: fourDecimals x).toList
  (part "ret" node.totalReturn ++ part "sharpe" node.sharpe).flatMap (' ' :: ·)

/-- The line of a node at a depth. -/
def renderLine (tree : Tree) (depth : Nat) (node : Node) : Text :=
  let handle := match uniqueHandle (tree.sessionNodeIds node.sessionRef) node.nodeId with
    | some (c :: rest) => '[' :: (c :: rest) ++ "] ".toList
    | _ => []
  List.replicate (2 * depth) ' ' ++ "- ".toList ++ handle ++ node.nodeId ++ metricsText node ++
    (if node.failed then " [failed]".toList else []) ++
    if some node.nodeId = tree.currentNodeId then "  <- current".toList else []

/-- The nodes in the order `render_ascii` walks them, with their depths; `none` is a
    recursion deeper than `fuel`. -/
def walk (tree : Tree) (fuel : Nat) : Option (List (Nat × Node)) :=
  walkFrom Node.nodeId Node.parentNodeId tree.nodes fuel 0 none

/-- `render_ascii`. -/
def renderAscii (tree : Tree) (fuel : Nat) : Option Text :=
  (tree.walk fuel).map fun visits =>
    if visits.isEmpty then "(empty step tree)".toList
    else joinTexts '\n' (visits.map fun visit => tree.renderLine visit.1 visit.2)

end Tree

/-- A session's tree in memory and in its files; `round` is the position `validate`
    started its round at, while it records it. -/
structure Session where
  tree : Tree := {}
  file : Tree := {}
  published : Tree := {}
  round : Option (Option Text) := none

/-- What a session does with its tree. -/
inductive SessionOp where
  | recordStep (sessionRef : AgentRef .session) (runRef : AgentRef .run) (result : Nat)
      (revision : AgentRef .strategy) (totalReturn sharpe : Option ℚ)
  | recordFailedAttempt (sessionRef : AgentRef .session) (runRef : AgentRef .run) (result : Nat)
      (totalReturn sharpe : Option ℚ)
  | openRound
  | reposition
  | rollBack (sessionRef : AgentRef .session) (reference : Text)
  | publish
  /-- The session's own file is read again. -/
  | reload
  /-- A new session root is seeded from the experiment's copy. -/
  | resume

namespace Session

/-- The tree a method changed, saved; a method that raised changed nothing. -/
def put (isAlnum : Char → Bool) (s : Session) : Except TreeError Tree → Session
  | .ok tree => { s with tree, file := tree.saved isAlnum }
  | .error _ => s

def step (isAlnum : Char → Bool) (s : Session) : SessionOp → Session
  | .recordStep sessionRef runRef result revision totalReturn sharpe =>
    s.put isAlnum (s.tree.recordStep researchStage sessionRef.text runRef.text (resultName result)
      revision.text totalReturn sharpe)
  | .recordFailedAttempt sessionRef runRef result totalReturn sharpe =>
    s.put isAlnum (s.tree.recordFailedAttempt researchStage sessionRef.text runRef.text
      (resultName result) totalReturn sharpe)
  | .openRound => { s with round := some s.tree.currentNodeId }
  | .reposition =>
    match s.round with
    | some parent => s.put isAlnum (s.tree.setPosition parent)
    | none => s
  | .rollBack sessionRef reference => s.put isAlnum (s.tree.rollBack sessionRef.text reference)
  | .publish => { s with published := s.file }
  | .reload => { s with tree := s.file, round := none }
  | .resume => { s with tree := s.published, file := s.published, round := none }

def run (isAlnum : Char → Bool) (ops : List SessionOp) : Session :=
  ops.foldl (step isAlnum) {}

end Session

end AutoTrade.SessionTree
