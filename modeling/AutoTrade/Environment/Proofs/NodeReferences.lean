import AutoTrade.Environment.Proofs.SessionTree

/-!
# References to nodes

`autotrade/environment/tools/node_reference.py`: a node is shown by its short handle
where no other node of its session shares it, and by its id elsewhere. What is shown
names the node again, and so a rollback to it goes there.
-/

namespace AutoTrade.SessionTree

theorem untilSeparator_head {text rest : Text} (first : untilSeparator text = '_' :: rest) :
    ∃ rest', text = '_' :: rest' := by
  unfold untilSeparator at first
  split at first
  · cases first
  · obtain ⟨rfl, -⟩ := List.cons.inj first
    exact ⟨_, rfl⟩
  · cases first

theorem not_infix_untilSeparator (text : Text) : ¬ nodeIdSeparator <:+: untilSeparator text := by
  fun_induction untilSeparator text with
  | case1 => exact fun inside => absurd (List.infix_nil.mp inside) (by decide)
  | case2 c rest single ih =>
    intro inside
    rcases List.infix_cons_iff.mp inside with ⟨tail, start⟩ | inside
    · obtain ⟨rfl, next⟩ := List.cons.inj start
      obtain ⟨rest', rfl⟩ := untilSeparator_head next.symm
      exact single rest' rfl rfl
    · exact ih inside
  | case3 => exact fun inside => absurd (List.infix_nil.mp inside) (by decide)

theorem untilSeparator_eq_self {text : Text} (absent : ¬ nodeIdSeparator <:+: text) :
    untilSeparator text = text := by
  fun_induction untilSeparator text with
  | case1 rest => exact absurd ⟨[], rest, rfl⟩ absent
  | case2 c rest _ ih =>
    rw [ih fun inside => absent (inside.trans (List.suffix_cons c rest).isInfix)]
  | case3 => rfl

theorem infix_reverse_iff {text : Text} :
    nodeIdSeparator <:+: text.reverse ↔ nodeIdSeparator <:+: text :=
  @List.reverse_infix _ nodeIdSeparator text

theorem not_infix_nodeHandle (nodeId : Text) : ¬ nodeIdSeparator <:+: nodeHandle nodeId := by
  unfold nodeHandle
  rw [infix_reverse_iff]
  exact not_infix_untilSeparator _

theorem nodeHandle_nodeHandle (nodeId : Text) : nodeHandle (nodeHandle nodeId) = nodeHandle nodeId := by
  have absent := not_infix_nodeHandle nodeId
  generalize nodeHandle nodeId = handle at absent
  unfold nodeHandle
  rw [untilSeparator_eq_self (infix_reverse_iff.not.mpr absent), List.reverse_reverse]

variable {nodeIds : List Text} {nodeId reference : Text}

theorem filter_of_uniqueHandle (member : nodeId ∈ nodeIds)
    (unique : uniqueHandle nodeIds nodeId = some reference) :
    reference = nodeHandle nodeId ∧
      nodeIds.filter (fun other => nodeHandle other = reference) = [nodeId] := by
  unfold uniqueHandle at unique
  split_ifs at unique with once
  obtain rfl := Option.some.inj unique
  refine ⟨rfl, ?_⟩
  rw [List.count_eq_countP, List.countP_map, List.countP_eq_length_filter] at once
  obtain ⟨only, single⟩ := List.length_eq_one_iff.mp once
  have same : nodeIds.filter (fun other => nodeHandle other = nodeHandle nodeId) = [only] := by
    rw [← single]
    exact List.filter_congr fun other _ => by rw [Function.comp, beq_eq_decide]
  have here : nodeId ∈ nodeIds.filter (fun other => nodeHandle other = nodeHandle nodeId) :=
    List.mem_filter.mpr ⟨member, by simp⟩
  rw [same] at here ⊢
  rw [List.mem_singleton.mp here]

theorem uniqueHandle_of_filter
    (only : nodeIds.filter (fun other => nodeHandle other = reference) = [nodeId]) :
    nodeId ∈ nodeIds ∧ uniqueHandle nodeIds nodeId = some reference := by
  have here : nodeId ∈ nodeIds.filter (fun other => nodeHandle other = reference) :=
    only ▸ List.mem_singleton_self _
  obtain ⟨member, named⟩ := List.mem_filter.mp here
  obtain rfl := of_decide_eq_true named
  refine ⟨member, if_pos ?_⟩
  rw [List.count_eq_countP, List.countP_map, List.countP_eq_length_filter]
  refine (congrArg List.length (List.filter_congr fun other _ => ?_)).trans (congrArg List.length only)
  rw [Function.comp, beq_eq_decide]

namespace Tree

theorem resolveNodeReference_shown (member : nodeId ∈ nodeIds) :
    resolveNodeReference ((uniqueHandle nodeIds nodeId).getD nodeId) nodeIds = .ok nodeId := by
  cases unique : uniqueHandle nodeIds nodeId with
  | none => exact if_pos member
  | some handle =>
    obtain ⟨rfl, only⟩ := filter_of_uniqueHandle member unique
    rw [Option.getD_some, resolveNodeReference]
    split_ifs with listed
    · have alike : nodeHandle nodeId ∈
          nodeIds.filter (fun other => nodeHandle other = nodeHandle nodeId) :=
        List.mem_filter.mpr ⟨listed, decide_eq_true (nodeHandle_nodeHandle nodeId)⟩
      rw [only] at alike
      rw [List.mem_singleton.mp alike]
    · rw [only]

theorem resolveNodeReference_eq_ok (found : resolveNodeReference reference nodeIds = .ok nodeId) :
    nodeId ∈ nodeIds ∧ (reference = nodeId ∨ uniqueHandle nodeIds nodeId = some reference) := by
  unfold resolveNodeReference at found
  split_ifs at found with listed
  · obtain rfl := Except.ok.inj found
    exact ⟨listed, .inl rfl⟩
  · split at found
    · rename_i only
      obtain rfl := Except.ok.inj found
      obtain ⟨member, unique⟩ := uniqueHandle_of_filter only
      exact ⟨member, .inr unique⟩
    · cases found

variable {tree tree' : Tree} {sessionRef : Text}

/-- Every name is joined of parts. -/
def Joined (tree : Tree) : Prop := ∀ node ∈ tree.nodes, nodeIdSeparator <:+: node.nodeId

theorem Joined.add (joined : Joined tree) {epochId runId resultName nodeId : Text}
    (h : tree.newNodeId epochId sessionRef runId resultName = .ok nodeId) {node : Node}
    (named : node.nodeId = nodeId) {position : Option Text} :
    Joined { currentNodeId := position, nodes := tree.nodes ++ [node] } := by
  intro other member
  rcases List.mem_append.mp member with before | added
  · exact joined other before
  · rw [List.mem_singleton.mp added, named, (newNodeId_fresh h).1, buildNodeId_eq]
    exact ⟨epochId, _, by rw [List.append_assoc]⟩

theorem Joined.recordStep (joined : Joined tree) {epochId runId resultName revisionId : Text}
    {totalReturn sharpe : Option ℚ}
    (h : tree.recordStep epochId sessionRef runId resultName revisionId totalReturn sharpe =
      .ok tree') : Joined tree' := by
  obtain ⟨nodeId, fresh, added⟩ := bind_eq_ok.mp h
  rw [← Except.ok.inj added]
  exact joined.add fresh rfl

theorem Joined.recordFailedAttempt (joined : Joined tree) {epochId runId resultName : Text}
    {totalReturn sharpe : Option ℚ}
    (h : tree.recordFailedAttempt epochId sessionRef runId resultName totalReturn sharpe =
      .ok tree') : Joined tree' := by
  obtain ⟨nodeId, fresh, added⟩ := bind_eq_ok.mp h
  rw [← Except.ok.inj added]
  exact joined.add fresh rfl

theorem Joined.saved (joined : Joined tree) (kept : Kept tree) (isAlnum : Char → Bool) :
    Joined (tree.saved isAlnum) := by
  intro node member
  obtain ⟨before, listed, rfl⟩ := List.mem_map.mp member
  show nodeIdSeparator <:+: redact isAlnum before.nodeId
  rw [(kept.plain before listed).redact_eq_self isAlnum]
  exact joined before listed

/-- The names of a tree and of its files are joined of parts. -/
structure SessionJoined (s : Session) : Prop where
  tree : Joined s.tree
  file : Joined s.file
  published : Joined s.published

theorem SessionJoined.put {s : Session} (joined : SessionJoined s) (isAlnum : Char → Bool)
    {result : Except TreeError Tree}
    (changes : ∀ tree', result = .ok tree' → Kept tree' ∧ Joined tree') :
    SessionJoined (s.put isAlnum result) := by
  cases result with
  | error e => exact joined
  | ok tree' =>
    obtain ⟨kept, after⟩ := changes tree' rfl
    exact ⟨after, after.saved kept isAlnum, joined.published⟩

theorem SessionJoined.step {s : Session} (joined : SessionJoined s) (kept : SessionKept s)
    (isAlnum : Char → Bool) (op : SessionOp) : SessionJoined (s.step isAlnum op) := by
  cases op with
  | recordStep =>
    exact joined.put isAlnum fun _ h => ⟨(kept.tree.recordStep h).1, joined.tree.recordStep h⟩
  | recordFailedAttempt =>
    exact joined.put isAlnum fun _ h =>
      ⟨(kept.tree.recordFailedAttempt h).1, joined.tree.recordFailedAttempt h⟩
  | openRound => exact ⟨joined.tree, joined.file, joined.published⟩
  | reposition =>
    cases opened : s.round with
    | none => simpa [Session.step, opened] using joined
    | some position =>
      simp only [Session.step, opened]
      refine joined.put isAlnum fun _ h =>
        ⟨(kept.tree.setPosition (kept.round position opened) h).1, ?_⟩
      exact setPosition_moves h ▸ joined.tree
  | rollBack =>
    refine joined.put isAlnum fun _ h => ⟨(kept.tree.rollBack h).1, ?_⟩
    obtain ⟨node, -, -, rfl⟩ := rollBack_eq_ok h
    exact joined.tree
  | publish => exact ⟨joined.tree, joined.file, joined.file⟩
  | reload => exact ⟨joined.file, joined.file, joined.published⟩
  | resume => exact ⟨joined.published, joined.published, joined.published⟩

theorem SessionJoined.run (isAlnum : Char → Bool) (ops : List SessionOp) :
    SessionJoined (Session.run isAlnum ops) := by
  have steps : ∀ s, SessionKept s → SessionJoined s →
      SessionJoined (ops.foldl (Session.step isAlnum) s) := by
    induction ops with
    | nil => exact fun s _ joined => joined
    | cons op ops ih =>
      exact fun s kept joined => ih _ (kept.step isAlnum op) (joined.step kept isAlnum op)
  exact steps {} ⟨.empty, .empty, .empty, by simp⟩ ⟨by simp [Joined], by simp [Joined], by simp [Joined]⟩

theorem getNode_of_mem (kept : Kept tree) {node : Node} (member : node ∈ tree.nodes) :
    tree.getNode node.nodeId = .ok node := by
  unfold getNode
  cases first : tree.nodes.find? fun other => other.nodeId = node.nodeId with
  | none => exact absurd (decide_eq_true rfl) (List.find?_eq_none.mp first node member)
  | some other =>
    have found := List.find?_some first
    have named : other.nodeId = node.nodeId := of_decide_eq_true found
    have same := List.inj_on_of_nodup_map kept.grown.nodup (List.mem_of_find?_eq_some first) member named
    rw [same]

/-- How the nodes of a tree are referred to: what is shown of a node names it, a rollback
    to that goes to the node, and what names a node is its id or a handle that no other node
    of the session has. -/
structure References (tree : Tree) : Prop where
  shown : ∀ node ∈ tree.nodes,
    tree.sessionNodeReference (tree.sessionHandle node.sessionRef node.nodeId) node.sessionRef =
      .ok node.nodeId
  restores : ∀ node ∈ tree.nodes, node.completeValidation = true → node.revisionId.getD [] ≠ [] →
    tree.rollBack node.sessionRef (tree.sessionHandle node.sessionRef node.nodeId) =
      .ok { tree with currentNodeId := some node.nodeId }
  named : ∀ reference sessionRef nodeId,
    tree.sessionNodeReference reference sessionRef = .ok nodeId →
      nodeId ∈ tree.nodes.map Node.nodeId ∧ (reference = nodeId ∨
        nodeId ∈ tree.sessionNodeIds sessionRef ∧
          uniqueHandle (tree.sessionNodeIds sessionRef) nodeId = some reference)

theorem sessionNodeReference_shown (joined : Joined tree) {node : Node} (member : node ∈ tree.nodes) :
    tree.sessionNodeReference (tree.sessionHandle node.sessionRef node.nodeId) node.sessionRef =
      .ok node.nodeId := by
  have listed : node.nodeId ∈ tree.sessionNodeIds node.sessionRef :=
    List.mem_map_of_mem (List.mem_filter.mpr ⟨member, by simp⟩)
  have resolved := resolveNodeReference_shown listed
  unfold sessionNodeReference sessionHandle
  split_ifs with there
  · cases unique : uniqueHandle (tree.sessionNodeIds node.sessionRef) node.nodeId with
    | none => rfl
    | some handle =>
      -- no handle is the name of a node
      rw [unique, Option.getD_some] at there
      obtain ⟨other, elsewhere, same⟩ := List.mem_map.mp (hasNode_iff.mp there)
      obtain ⟨rfl, -⟩ := filter_of_uniqueHandle listed unique
      exact absurd (same ▸ joined other elsewhere) (not_infix_nodeHandle _)
  · exact resolved

/-- Whatever a session does with its tree, what it shows of a node names that node. -/
theorem references_name_nodes (isAlnum : Char → Bool) (ops : List SessionOp) :
    References (Session.run isAlnum ops).tree := by
  have kept := (SessionKept.run isAlnum ops).tree
  have joined := (SessionJoined.run isAlnum ops).tree
  refine ⟨fun node member => sessionNodeReference_shown joined member,
    fun node member complete revision => ?_, fun reference sessionRef nodeId found => ?_⟩
  · unfold rollBack
    rw [sessionNodeReference_shown joined member]
    simp only [bind, Except.bind, getNode_of_mem kept member]
    have recorded : (node.revisionId.getD []).isEmpty = false := by simpa using revision
    rw [if_neg (by simp), if_neg (by simp [complete, recorded]), setPosition,
      if_pos (hasNode_iff.mpr (List.mem_map_of_mem member))]
  · unfold sessionNodeReference at found
    split_ifs at found with there
    · obtain rfl := Except.ok.inj found
      exact ⟨hasNode_iff.mp there, .inl rfl⟩
    · obtain ⟨listed, how⟩ := resolveNodeReference_eq_ok found
      obtain ⟨node, inSession, rfl⟩ := List.mem_map.mp listed
      refine ⟨List.mem_map_of_mem (List.mem_filter.mp inSession).1, ?_⟩
      exact how.imp_right fun unique => ⟨listed, unique⟩

end Tree

end AutoTrade.SessionTree
