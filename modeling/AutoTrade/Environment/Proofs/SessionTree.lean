import AutoTrade.Environment.SessionTree
import AutoTrade.Misc.Runs

/-!
# The integrity of a session's tree

A node is added under a new name and the current position, which is a node that did
not fail; and no name a node can have is one the file redacts. So the tree in memory
and the trees in the files are grown from their roots, whatever a session does.
-/

namespace AutoTrade.SessionTree

variable {c : Char}

theorem isUuid4_mem {token : Text} (canonical : isUuid4 token = true) (member : c ∈ token) :
    isHexDigit c = true ∨ c = '-' := by
  simp only [isUuid4, Bool.and_eq_true, decide_eq_true_eq, List.all_eq_true, List.mem_range] at canonical
  obtain ⟨length, each⟩ := canonical
  obtain ⟨i, bound, rfl⟩ := List.getElem_of_mem member
  have here := each i (length ▸ bound)
  rw [List.getD_eq_getElem?_getD, List.getElem?_eq_getElem bound, Option.getD_some] at here
  split_ifs at here
  · exact .inr (of_decide_eq_true here)
  · rw [of_decide_eq_true here]
    exact .inl (by decide)
  · have listed := of_decide_eq_true here
    simp only [List.mem_cons, List.not_mem_nil, or_false] at listed
    rcases listed with same | same | same | same <;> rw [same] <;> exact .inl (by decide)
  · exact .inl here

/-- The characters of a reference or a result name, an `h` apart. -/
def nameChars : List Char := "0123456789abcdef-_gilnorstuvy".toList

theorem isHexDigit_mem (hex : isHexDigit c = true) : c ∈ nameChars := by
  have all : ∀ c ∈ "0123456789abcdef".toList, c ∈ nameChars :=
    List.all_iff_forall_prop.mp (by decide)
  exact all c (of_decide_eq_true hex)

theorem AgentRef.mem_nameChars {refs : RefNamespace} (ref : AgentRef refs) (member : c ∈ ref.text) :
    c ∈ nameChars := by
  have prefixes : ∀ refs : RefNamespace, ∀ c ∈ refs.refPrefix, c ∈ nameChars := by
    intro refs
    cases refs <;> exact List.all_iff_forall_prop.mp (by decide)
  rcases List.mem_append.mp member with inside | inside
  · exact prefixes refs c inside
  · rcases List.mem_cons.mp inside with rfl | inside
    · decide
    · rcases isUuid4_mem ref.canonical inside with hex | rfl
      · exact isHexDigit_mem hex
      · decide

theorem resultName_mem {n : Nat} (member : c ∈ resultName n) : c ∈ nameChars := by
  have letters : ∀ c ∈ "valid_".toList, c ∈ nameChars := List.all_iff_forall_prop.mp (by decide)
  have digits : ∀ c ∈ "0123456789".toList, c ∈ nameChars := List.all_iff_forall_prop.mp (by decide)
  rcases List.mem_append.mp member with inside | inside
  · exact letters c inside
  · rcases List.mem_append.mp inside with inside | inside
    · obtain rfl := List.eq_of_mem_replicate inside
      decide
    · exact digits c (JsonNumber.mem_ofNat inside)

theorem buildNodeId_eq (epochId sessionRef runId resultName : Text) :
    buildNodeId epochId sessionRef runId resultName =
      epochId ++ (nodeIdSeparator ++
        (sessionRef ++ (nodeIdSeparator ++ (runId ++ (nodeIdSeparator ++ resultName))))) := by
  simp [buildNodeId, List.intercalate]

theorem plain_buildNodeId (sessionRef : AgentRef .session) (runRef : AgentRef .run) (n : Nat) :
    Plain (buildNodeId researchStage sessionRef.text runRef.text (resultName n)) := by
  rw [buildNodeId_eq]
  have chars : ∀ c ∈ nodeIdSeparator ++ (sessionRef.text ++ (nodeIdSeparator ++ (runRef.text ++
      (nodeIdSeparator ++ resultName n)))), c ∈ nameChars := by
    have separator : ∀ c ∈ nodeIdSeparator, c ∈ nameChars := List.all_iff_forall_prop.mp (by decide)
    intro c member
    simp only [List.mem_append] at member
    rcases member with inside | inside | inside | inside | inside | inside
    · exact separator c inside
    · exact sessionRef.mem_nameChars inside
    · exact separator c inside
    · exact runRef.mem_nameChars inside
    · exact separator c inside
    · exact resultName_mem inside
  obtain ⟨tail, whole⟩ : ∃ tail, nodeIdSeparator ++ (sessionRef.text ++ (nodeIdSeparator ++
      (runRef.text ++ (nodeIdSeparator ++ resultName n)))) = '_' :: tail := ⟨_, rfl⟩
  rw [whole] at chars ⊢
  have mem : ∀ c ∈ researchStage ++ '_' :: tail, c ∈ 'c' :: 'h' :: nameChars := by
    have stage : ∀ c ∈ researchStage, c ∈ 'c' :: 'h' :: nameChars :=
      List.all_iff_forall_prop.mp (by decide)
    intro c member
    rcases List.mem_append.mp member with inside | inside
    · exact stage c inside
    · exact List.mem_cons_of_mem _ (List.mem_cons_of_mem _ (chars c inside))
  have absent : 'h' ∉ nameChars := by decide
  refine ⟨fun c member => ?_, ⟨fun member => ?_, fun member => ?_⟩, fun member => ?_, ?_⟩
  · have visible : ∀ c ∈ 'c' :: 'h' :: nameChars, isSpace c = false :=
      List.all_iff_forall_prop.mp (by decide)
    exact visible c (mem c member)
  · exact absurd (mem _ member) (by decide)
  · exact absurd (mem _ member) (by decide)
  · exact absurd (mem _ member) (by decide)
  · rintro ⟨before, after, same⟩
    have cut : "researc".toList ++ 'h' :: '_' :: tail = before ++ 'h' :: 'f' :: after := by
      rw [List.append_assoc] at same
      exact same.symm
    have first : 'h' ∉ "researc".toList := by decide
    have last : 'h' ∉ '_' :: tail := fun member => absent (chars _ member)
    obtain ⟨-, -, next⟩ := (List.append_cons_inj_of_notMem first last).mp cut
    exact absurd (List.cons.inj next).1 (by decide)

/-- A position is none or a node that did not fail. -/
def Stands (nodes : List Node) (position : Option Text) : Prop :=
  ∀ id ∈ position, ∃ node ∈ nodes, node.nodeId = id ∧ node.failed = false

theorem Stands.append {nodes : List Node} {position : Option Text} (stands : Stands nodes position)
    (more : List Node) : Stands (nodes ++ more) position := by
  intro id here
  obtain ⟨node, member, named⟩ := stands id here
  exact ⟨node, List.mem_append_left _ member, named⟩

/-- A tree grown from its roots whose names are logged as they are and whose position
    is a node that did not fail. -/
structure Kept (tree : Tree) : Prop where
  grown : Grown Node.nodeId Node.parentNodeId tree.nodes
  current : Stands tree.nodes tree.currentNodeId
  complete : ∀ node ∈ tree.nodes, node.completeValidation = true → node.failed = false
  plain : ∀ node ∈ tree.nodes, Plain node.nodeId

namespace Tree

variable {tree tree' : Tree}

theorem hasNode_iff {nodeId : Text} :
    tree.hasNode nodeId = true ↔ nodeId ∈ tree.nodes.map Node.nodeId := by
  simp [hasNode]

theorem newNodeId_fresh {epochId sessionRef runId resultName nodeId : Text}
    (h : tree.newNodeId epochId sessionRef runId resultName = .ok nodeId) :
    nodeId = buildNodeId epochId sessionRef runId resultName ∧
      nodeId ∉ tree.nodes.map Node.nodeId := by
  simp only [newNodeId] at h
  split_ifs at h with known
  obtain rfl := Except.ok.inj h
  exact ⟨rfl, fun member => known (hasNode_iff.mpr member)⟩

theorem setPosition_moves {nodeId : Option Text} (h : tree.setPosition nodeId = .ok tree') :
    tree' = { tree with currentNodeId := nodeId } := by
  cases nodeId with
  | none => exact (Except.ok.inj h).symm
  | some id =>
    rw [setPosition] at h
    split_ifs at h
    exact (Except.ok.inj h).symm

theorem rollBack_eq_ok {sessionRef reference : Text}
    (h : tree.rollBack sessionRef reference = .ok tree') :
    ∃ node ∈ tree.nodes, node.completeValidation = true ∧
      tree' = { tree with currentNodeId := some node.nodeId } := by
  unfold rollBack at h
  obtain ⟨nodeId, -, h⟩ := bind_eq_ok.mp h
  obtain ⟨node, found, h⟩ := bind_eq_ok.mp h
  split_ifs at h with _ evaluated
  unfold getNode at found
  cases first : tree.nodes.find? fun node => node.nodeId = nodeId with
  | none =>
    rw [first] at found
    cases found
  | some other =>
    rw [first] at found
    obtain rfl := Except.ok.inj found
    have named := List.find?_some first
    obtain rfl : other.nodeId = nodeId := of_decide_eq_true named
    have recorded := not_or.mp (mt Bool.or_eq_true_iff.mpr evaluated)
    refine ⟨other, List.mem_of_find?_eq_some first, ?_, setPosition_moves h⟩
    simpa using recorded.1

end Tree

namespace Kept

variable {tree tree' : Tree}

theorem known (kept : Kept tree) {id : Text} (here : tree.currentNodeId = some id) :
    id ∈ tree.nodes.map Node.nodeId := by
  obtain ⟨node, member, rfl, -⟩ := kept.current id here
  exact List.mem_map_of_mem member

theorem add (kept : Kept tree) {node : Node} (parent : node.parentNodeId = tree.currentNodeId)
    (fresh : node.nodeId ∉ tree.nodes.map Node.nodeId) (plain : Plain node.nodeId)
    (status : node.completeValidation = true → node.failed = false) {position : Option Text}
    (current : position = tree.currentNodeId ∨ position = some node.nodeId ∧ node.failed = false) :
    Kept { currentNodeId := position, nodes := tree.nodes ++ [node] } where
  grown := .snoc kept.grown fresh fun id above => kept.known (parent ▸ above)
  current id here := by
    rcases current with rfl | ⟨rfl, stands⟩
    · exact kept.current.append [node] id here
    · obtain rfl := Option.some.inj here
      exact ⟨node, by simp, rfl, stands⟩
  complete other member := by
    rcases List.mem_append.mp member with old | new
    · exact kept.complete other old
    · exact List.mem_singleton.mp new ▸ status
  plain other member := by
    rcases List.mem_append.mp member with old | new
    · exact kept.plain other old
    · exact List.mem_singleton.mp new ▸ plain

variable {position : Option Text}

theorem move (kept : Kept tree) (stands : Stands tree.nodes position) :
    Kept { tree with currentNodeId := position } :=
  { kept with current := stands }

theorem redact_nodeId (kept : Kept tree) (isAlnum : Char → Bool) {id : Text}
    (known : id ∈ tree.nodes.map Node.nodeId) : redact isAlnum id = id := by
  obtain ⟨node, member, rfl⟩ := List.mem_map.mp known
  exact (kept.plain node member).redact_eq_self isAlnum

theorem saved (kept : Kept tree) (isAlnum : Char → Bool) : Kept (tree.saved isAlnum) where
  grown := by
    refine kept.grown.map (fun node member => ?_) fun node member => ?_
    · exact (kept.plain node member).redact_eq_self isAlnum
    · cases above : node.parentNodeId with
      | none => rfl
      | some id =>
        exact congrArg some (kept.redact_nodeId isAlnum (kept.grown.known_of_mem member above))
  current id here := by
    obtain ⟨before, position, rfl⟩ := Option.map_eq_some_iff.mp here
    obtain ⟨node, member, named, stands⟩ := kept.current before position
    exact ⟨_, List.mem_map_of_mem member, by rw [← named], stands⟩
  complete node member := by
    obtain ⟨before, inside, rfl⟩ := List.mem_map.mp member
    exact kept.complete before inside
  plain node member := by
    obtain ⟨before, inside, rfl⟩ := List.mem_map.mp member
    have plain := kept.plain before inside
    exact (plain.redact_eq_self isAlnum).symm ▸ plain

/-- What a change of a tree keeps. -/
def Extends (tree tree' : Tree) : Prop := Kept tree' ∧ ∃ more, tree'.nodes = tree.nodes ++ more

variable {totalReturn sharpe : Option ℚ} {sessionRef : AgentRef .session} {runRef : AgentRef .run}

theorem recordStep (kept : Kept tree) {n : Nat} {revisionId : Text}
    (h : tree.recordStep researchStage sessionRef.text runRef.text (resultName n) revisionId
      totalReturn sharpe = .ok tree') : Extends tree tree' := by
  unfold Tree.recordStep at h
  obtain ⟨nodeId, new, h⟩ := bind_eq_ok.mp h
  obtain ⟨rfl, fresh⟩ := Tree.newNodeId_fresh new
  obtain rfl := pure_eq_ok.mp h
  exact ⟨kept.add rfl fresh (plain_buildNodeId ..) (fun _ => rfl) (.inr ⟨rfl, rfl⟩), _, rfl⟩

theorem recordFailedAttempt (kept : Kept tree) {n : Nat}
    (h : tree.recordFailedAttempt researchStage sessionRef.text runRef.text (resultName n)
      totalReturn sharpe = .ok tree') : Extends tree tree' := by
  unfold Tree.recordFailedAttempt at h
  obtain ⟨nodeId, new, h⟩ := bind_eq_ok.mp h
  obtain ⟨rfl, fresh⟩ := Tree.newNodeId_fresh new
  obtain rfl := pure_eq_ok.mp h
  exact ⟨kept.add rfl fresh (plain_buildNodeId ..) (by simp) (.inl rfl), _, rfl⟩

theorem rollBack (kept : Kept tree) {sessionRef reference : Text}
    (h : tree.rollBack sessionRef reference = .ok tree') : Extends tree tree' := by
  obtain ⟨node, member, evaluated, rfl⟩ := Tree.rollBack_eq_ok h
  refine ⟨kept.move fun id here => ?_, [], (List.append_nil _).symm⟩
  obtain rfl := Option.some.inj here
  exact ⟨node, member, rfl, kept.complete node member evaluated⟩

theorem setPosition (kept : Kept tree) (stands : Stands tree.nodes position)
    (h : tree.setPosition position = .ok tree') : Extends tree tree' := by
  obtain rfl := Tree.setPosition_moves h
  exact ⟨kept.move stands, [], (List.append_nil _).symm⟩

theorem empty : Kept {} where
  grown := .nil
  current := nofun
  complete := by simp
  plain := by simp

end Kept

/-- Every tree of a session is kept, and the round it records started where it may
    return to. -/
structure SessionKept (s : Session) : Prop where
  tree : Kept s.tree
  file : Kept s.file
  published : Kept s.published
  round : ∀ position ∈ s.round, Stands s.tree.nodes position

namespace SessionKept

variable {s : Session}

theorem put (kept : SessionKept s) (isAlnum : Char → Bool) {result : Except TreeError Tree}
    (changes : ∀ tree', result = .ok tree' → Kept.Extends s.tree tree') :
    SessionKept (s.put isAlnum result) := by
  cases result with
  | error e => exact kept
  | ok tree' =>
    obtain ⟨after, more, nodes⟩ := changes tree' rfl
    refine ⟨after, after.saved isAlnum, kept.published, fun position open_ => ?_⟩
    have stands := (kept.round position open_).append more
    exact nodes ▸ stands

theorem step (kept : SessionKept s) (isAlnum : Char → Bool) (op : SessionOp) :
    SessionKept (s.step isAlnum op) := by
  cases op with
  | recordStep => exact kept.put isAlnum fun _ h => kept.tree.recordStep h
  | recordFailedAttempt => exact kept.put isAlnum fun _ h => kept.tree.recordFailedAttempt h
  | openRound =>
    refine { kept with round := fun position here => ?_ }
    obtain rfl := Option.some.inj here
    exact kept.tree.current
  | reposition =>
    cases opened : s.round with
    | none => simpa [Session.step, opened] using kept
    | some position =>
      simp only [Session.step, opened]
      exact kept.put isAlnum fun _ h => kept.tree.setPosition (kept.round position opened) h
  | rollBack => exact kept.put isAlnum fun _ h => kept.tree.rollBack h
  | publish => exact { kept with published := kept.file }
  | reload => exact ⟨kept.file, kept.file, kept.published, by simp [Session.step]⟩
  | resume => exact ⟨kept.published, kept.published, kept.published, by simp [Session.step]⟩

theorem run (isAlnum : Char → Bool) (ops : List SessionOp) : SessionKept (Session.run isAlnum ops) := by
  have steps : ∀ s, SessionKept s → SessionKept (ops.foldl (Session.step isAlnum) s) := by
    induction ops with
    | nil => exact fun s kept => kept
    | cons op ops ih => exact fun s kept => ih _ (kept.step isAlnum op)
  exact steps {} ⟨.empty, .empty, .empty, nofun⟩

end SessionKept

/-- Names are unique, parents come first and have no cycle, the position is none or a
    node that did not fail, and the rendering has one line for each node. -/
structure Intact (tree : Tree) : Prop where
  unique : (tree.nodes.map Node.nodeId).Nodup
  before : ∀ earlier node later, tree.nodes = earlier ++ node :: later →
    ∀ parent, node.parentNodeId = some parent → parent ∈ earlier.map Node.nodeId
  acyclic : ∀ id, ¬ Relation.TransGen (ParentIn Node.nodeId Node.parentNodeId tree.nodes) id id
  position : ∀ id, tree.currentNodeId = some id →
    ∃ node ∈ tree.nodes, node.nodeId = id ∧ node.failed = false
  rendered : ∃ visits : List (Nat × Node), (visits.map Prod.snd).Perm tree.nodes ∧
    ∀ fuel, tree.nodes.length < fuel → tree.walk fuel = some visits ∧
      tree.renderAscii fuel = some (if visits.isEmpty then "(empty step tree)".toList
        else joinTexts '\n' (visits.map fun visit => tree.renderLine visit.1 visit.2))

/-- Whatever a session does with its tree, the tree is intact. -/
theorem tree_integrity (isAlnum : Char → Bool) (ops : List SessionOp) :
    Intact (Session.run isAlnum ops).tree := by
  have kept := (SessionKept.run isAlnum ops).tree
  obtain ⟨visits, walks, perm⟩ := kept.grown.walk_perm
  refine ⟨kept.grown.nodup, fun earlier node later whole parent child => kept.grown.before whole child,
    kept.grown.acyclic, kept.current, visits, perm, fun fuel deep => ?_⟩
  have walks := walkFrom_le deep walks
  refine ⟨walks, ?_⟩
  unfold Tree.renderAscii Tree.walk
  rw [walks, Option.map_some]

end AutoTrade.SessionTree
