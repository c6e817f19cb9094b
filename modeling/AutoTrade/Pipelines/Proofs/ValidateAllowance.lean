import AutoTrade.Misc.Runs
import AutoTrade.Pipelines.ValidateAllowance
import Mathlib.Data.Finset.Card

/-!
# The allowance across attempts

The live counter and the one derived from the tree agree as long as every
counted call leaves a node newer than the last test, and no test is stamped
earlier than a node it follows.
-/

namespace AutoTrade.ValidateAllowance

open StepTree

/-- What the count reads of a node. -/
def stamp (node : StepNode) : Text × Text := (node.batchId, node.createdAt)

/-- The batches among these stamps, newer than `since`. -/
def countSince (stamps : List (Text × Text)) (since : Option Text) : Nat :=
  ((stamps.filter fun s => s.1 ≠ [] && newerThan since s.2).map Prod.fst).dedup.length

theorem validatesSince_eq (tree : StepTree) (since : Option Text) :
    tree.validatesSince since = countSince (tree.nodes.map stamp) since := by
  unfold validatesSince countSince
  rw [List.filter_map, List.map_map]
  rfl

theorem dedup_append_fresh {l m : List Text} {b : Text} (filled : m ≠ [])
    (same : ∀ a ∈ m, a = b) (fresh : b ∉ l) :
    (l ++ m).dedup.length = l.dedup.length + 1 := by
  have values : (l ++ m).toFinset = insert b l.toFinset := by
    ext a
    rw [List.mem_toFinset, Finset.mem_insert, List.mem_append, List.mem_toFinset]
    constructor
    · rintro (old | new)
      · exact .inr old
      · exact .inl (same a new)
    · rintro (rfl | old)
      · obtain ⟨c, member⟩ := List.exists_mem_of_ne_nil m filled
        exact .inr (same c member ▸ member)
      · exact .inl old
  have absent : b ∉ l.toFinset := by
    rw [List.mem_toFinset]
    exact fresh
  rw [← List.card_toFinset, ← List.card_toFinset, values, Finset.card_insert_of_notMem absent]

theorem countSince_append {stamps : List (Text × Text)} {since : Option Text} {batchId : Text}
    {times : List Text} (named : batchId ≠ []) (fresh : batchId ∉ stamps.map Prod.fst)
    (newer : times.any (newerThan since) = true) :
    countSince (stamps ++ times.map fun t => (batchId, t)) since = countSince stamps since + 1 := by
  unfold countSince
  rw [List.filter_append, List.map_append]
  apply dedup_append_fresh (b := batchId)
  · obtain ⟨t, member, after⟩ := List.any_eq_true.mp newer
    apply List.ne_nil_of_mem (a := batchId)
    refine List.mem_map.mpr ⟨(batchId, t), List.mem_filter.mpr ⟨?_, ?_⟩, rfl⟩
    · exact List.mem_map.mpr ⟨t, member, rfl⟩
    · simp [named, after]
  · intro a member
    obtain ⟨s, inside, rfl⟩ := List.mem_map.mp member
    obtain ⟨t, -, rfl⟩ := List.mem_map.mp (List.mem_filter.mp inside).1
    rfl
  · intro member
    obtain ⟨s, inside, same⟩ := List.mem_map.mp member
    exact fresh (List.mem_map.mpr ⟨s, (List.mem_filter.mp inside).1, same⟩)

theorem countSince_eq_zero {stamps : List (Text × Text)} {t : Text}
    (older : ∀ s ∈ stamps, ¬ t < s.2) : countSince stamps (some t) = 0 := by
  have none_ : stamps.filter (fun s => s.1 ≠ [] && newerThan (some t) s.2) = [] := by
    apply List.filter_eq_nil_iff.mpr
    intro s member
    simp [newerThan, older s member]
  unfold countSince
  rw [none_]
  rfl

/-- The results the tree holds of a run are numbered below `result`. -/
def NumberedBelow (tree : StepTree) (runRef : Text) (result : Nat) : Prop :=
  ∀ node ∈ tree.nodes, node.nodeId.runRef = runRef → node.nodeId.result < result

def Placed (tree : StepTree) (position : Option NodeId) : Prop := position.all tree.hasNode = true

section

variable {parent : Option NodeId} {runRef : Text} {tree : StepTree}

theorem Placed.mono {tree' : StepTree} (placed : Placed tree parent)
    (grown : tree.nodes <+: tree'.nodes) : Placed tree' parent := by
  unfold Placed at placed ⊢
  cases parent with
  | none => rfl
  | some nodeId =>
    obtain ⟨node, member, named⟩ := hasNode_iff.mp placed
    exact hasNode_iff.mpr ⟨node, grown.subset member, named⟩

theorem recordCandidate_spec (rules : Rules) (batchId : Text) {nodeId : NodeId}
    (placed : Placed tree parent)
    (absent : tree.hasNode nodeId = false) (candidate : Replayed) :
    ∃ tree' added, recordCandidate rules parent nodeId batchId tree candidate = .ok tree' ∧
      tree'.nodes = tree.nodes ++ added ∧
      added.map stamp = (if rules.records candidate = true then [(batchId, candidate.createdAt)]
        else []) ∧
      ∀ node ∈ added, node.nodeId = nodeId := by
  have moved : tree.setPosition parent = .ok { tree with currentNodeId := parent } :=
    setPosition_eq_ok.mpr ⟨placed, rfl⟩
  unfold recordCandidate Rules.records
  rw [moved]
  cases candidate.outcome with
  | completed revisionId =>
    refine ⟨_, _, recordStep_eq_ok.mpr ⟨absent, rfl⟩, rfl, rfl, ?_⟩
    intro node member
    rw [List.mem_singleton.mp member]
  | failed cause =>
    cases recorded : rules.recordFailedAttempts with
    | true =>
      refine ⟨_, _, recordFailedAttempt_eq_ok.mpr ⟨absent, rfl⟩, rfl, rfl, ?_⟩
      intro node member
      rw [List.mem_singleton.mp member]
    | false =>
      refine ⟨_, [], rfl, (List.append_nil _).symm, rfl, ?_⟩
      intro node member
      cases member

theorem recordBatch_spec (rules : Rules) (batchId : Text) (candidates : List Replayed)
    {result : Nat} (placed : Placed tree parent)
    (below : NumberedBelow tree runRef result) :
    ∃ added, (recordBatch rules parent runRef batchId tree result candidates).nodes =
        tree.nodes ++ added ∧
      (recordBatch rules parent runRef batchId tree result candidates).currentNodeId = parent ∧
      added.map stamp =
        ((candidates.filter rules.records).map Replayed.createdAt).map (fun t => (batchId, t)) ∧
      ∀ node ∈ added, node.nodeId.runRef = runRef ∧
        node.nodeId.result < result + candidates.length := by
  induction candidates generalizing tree result with
  | nil =>
    refine ⟨[], (List.append_nil _).symm, rfl, rfl, ?_⟩
    intro node member
    cases member
  | cons candidate rest ih =>
    have absent : tree.hasNode ⟨runRef, result⟩ = false := by
      rw [Bool.eq_false_iff]
      intro present
      obtain ⟨node, member, named⟩ := hasNode_iff.mp present
      have number := below node member (by rw [named])
      rw [named] at number
      exact absurd number (lt_irrefl _)
    obtain ⟨tree', first, recorded, nodes, stamps, named⟩ :=
      recordCandidate_spec rules batchId placed absent candidate
    have below' : NumberedBelow tree' runRef (result + 1) := by
      intro node member sameRun
      rw [nodes] at member
      rcases List.mem_append.mp member with old | new
      · have := below node old sameRun
        omega
      · rw [named node new]
        exact Nat.lt_succ_self result
    have placed' : Placed tree' parent := placed.mono (nodes ▸ List.prefix_append _ _)
    obtain ⟨added, nodes', position, stamps', bounds⟩ := ih placed' below'
    unfold recordBatch
    rw [recorded]
    refine ⟨first ++ added, ?_, position, ?_, ?_⟩
    · rw [nodes', nodes, List.append_assoc]
    · rw [List.map_append, stamps, stamps', List.filter_cons]
      split_ifs <;> rfl
    · intro node member
      rcases List.mem_append.mp member with old | new
      · rw [named node old, List.length_cons]
        exact ⟨rfl, by show result < _; omega⟩
      · obtain ⟨sameRun, bound⟩ := bounds node new
        rw [List.length_cons]
        exact ⟨sameRun, by omega⟩

end

/-- The attempt's results are numbered on, and the tree stands where a node is. -/
structure Orderly (s : Session) : Prop where
  known : s.runRef ∈ s.runRefs ∧ ∀ node ∈ s.tree.nodes, node.nodeId.runRef ∈ s.runRefs
  below : NumberedBelow s.tree s.runRef (s.candidatesStarted + 1)
  placed : Placed s.tree s.tree.currentNodeId

/-- The live counter is the one a resumed attempt would derive. -/
def Counted (s : Session) : Prop := s.validatesInInterval = s.tree.validatesSince s.tests.getLast?

/-- A call the allowance lets pass leaves a node newer than the last test, and a
    test is not stamped earlier than a node it follows. -/
def Session.heeds (rules : Rules) (s : Session) : Event → Bool
  | .validate _ candidates =>
    decide (rules.validatesPerStep ≤ s.validatesInInterval) ||
      candidates.any fun c => rules.records c && newerThan s.tests.getLast? c.createdAt
  | .test (some recordedAt) => s.tree.nodes.all fun node => !decide (recordedAt < node.createdAt)
  | _ => true

def Session.heedsAll (rules : Rules) (s : Session) : List Event → Bool
  | [] => true
  | event :: events => s.heeds rules event && (s.step rules event).heedsAll rules events

theorem orderly_start (runRef : Text) : Orderly (Session.start runRef) where
  known := ⟨List.mem_singleton_self _, fun node absurd => by cases absurd⟩
  below node absurd := by cases absurd
  placed := rfl

section

variable {rules : Rules} {s : Session}

/-- What a call does that is not refused. -/
structure Validated (rules : Rules) (s s' : Session) (batchId : Text) (candidates : List Replayed) :
    Prop where
  allowed : s.validatesInInterval < rules.validatesPerStep
  named : batchId ≠ []
  fresh : batchId ∉ s.tree.nodes.map StepNode.batchId
  interval : s'.validatesInInterval = s.validatesInInterval + 1
  counted : s'.counted = s.counted + 1
  tests : s'.tests = s.tests
  stamps : s'.tree.nodes.map stamp = s.tree.nodes.map stamp ++
    ((candidates.filter rules.records).map Replayed.createdAt).map fun t => (batchId, t)
  orderly : Orderly s'

/-- The allowance is spent, or the call is none. -/
def Refused (rules : Rules) (s : Session) (batchId : Text) (candidates : List Replayed) : Prop :=
  rules.validatesPerStep ≤ s.validatesInInterval ∨ candidates = [] ∨ batchId = [] ∨
    batchId ∈ s.tree.nodes.map StepNode.batchId

theorem validate_of_refused {batchId : Text} {candidates : List Replayed}
    (refused : Refused rules s batchId candidates) : s.validate rules batchId candidates = s := by
  unfold Session.validate
  rcases refused with spent | none_
  · exact if_pos spent
  · rw [if_pos none_]
    exact ite_self s

theorem Orderly.validated (orderly : Orderly s) {batchId : Text} {candidates : List Replayed}
    (passes : ¬ Refused rules s batchId candidates) :
    Validated rules s (s.validate rules batchId candidates) batchId candidates := by
  obtain ⟨room, filled⟩ := not_or.mp passes
  obtain ⟨added, nodes, position, stamps, bounds⟩ :=
    recordBatch_spec rules batchId candidates orderly.placed orderly.below
  unfold Session.validate
  rw [if_neg room, if_neg filled]
  obtain ⟨-, filled⟩ := not_or.mp filled
  obtain ⟨named, fresh⟩ := not_or.mp filled
  refine ⟨by omega, named, fresh, rfl, rfl, rfl, ?_, ⟨?_, ?_⟩, ?_, ?_⟩
  · rw [nodes, List.map_append, stamps]
  · exact orderly.known.1
  · intro node member
    rw [nodes] at member
    rcases List.mem_append.mp member with old | new
    · exact orderly.known.2 node old
    · rw [(bounds node new).1]
      exact orderly.known.1
  · intro node member sameRun
    show node.nodeId.result < s.candidatesStarted + candidates.length + 1
    rw [nodes] at member
    rcases List.mem_append.mp member with old | new
    · have bound := orderly.below node old sameRun
      omega
    · have bound := (bounds node new).2
      omega
  · rw [position]
    exact orderly.placed.mono (nodes ▸ List.prefix_append _ _)

theorem Orderly.step (orderly : Orderly s) (event : Event) : Orderly (s.step rules event) := by
  cases event with
  | validate batchId candidates =>
    show Orderly (s.validate rules batchId candidates)
    by_cases refused : Refused rules s batchId candidates
    · rw [validate_of_refused refused]
      exact orderly
    · exact (orderly.validated refused).orderly
  | test recordedAt =>
    cases recordedAt with
    | none => exact orderly
    | some t => exact ⟨orderly.known, orderly.below, orderly.placed⟩
  | rollback nodeId =>
    unfold Session.step
    dsimp only
    cases moved : s.tree.setPosition nodeId with
    | error e => exact orderly
    | ok tree =>
      obtain ⟨present, rfl⟩ := setPosition_eq_ok.mp moved
      exact ⟨orderly.known, orderly.below, present⟩
  | resume runRef =>
    show Orderly (s.resume runRef)
    unfold Session.resume
    split_ifs with used
    · exact orderly
    · refine ⟨⟨List.mem_cons_self, fun node member => ?_⟩, fun node member sameRun => ?_,
        orderly.placed⟩
      · exact List.mem_cons_of_mem _ (orderly.known.2 node member)
      · have known := orderly.known.2 node member
        rw [sameRun] at known
        exact absurd known used

theorem Counted.step (counted : Counted s) (orderly : Orderly s) {event : Event}
    (heeds : s.heeds rules event = true) : Counted (s.step rules event) := by
  cases event with
  | validate batchId candidates =>
    show Counted (s.validate rules batchId candidates)
    by_cases refused : Refused rules s batchId candidates
    · rw [validate_of_refused refused]
      exact counted
    · have validated := orderly.validated refused
      have room : ¬ rules.validatesPerStep ≤ s.validatesInInterval := by
        have := validated.allowed
        omega
      unfold Session.heeds at heeds
      dsimp only at heeds
      rw [decide_eq_false room, Bool.false_or] at heeds
      have newer : (((candidates.filter rules.records).map Replayed.createdAt).any
          (newerThan s.tests.getLast?)) = true := by
        rw [List.any_map, List.any_filter]
        exact heeds
      have fresh : batchId ∉ (s.tree.nodes.map stamp).map Prod.fst := by
        rw [List.map_map]
        exact validated.fresh
      unfold Counted at counted ⊢
      rw [validatesSince_eq] at counted ⊢
      rw [validated.interval, validated.tests, validated.stamps,
        countSince_append validated.named fresh newer, counted]
  | test recordedAt =>
    cases recordedAt with
    | none => exact counted
    | some t =>
      unfold Session.heeds at heeds
      have older : ∀ stamped ∈ s.tree.nodes.map stamp, ¬ t < stamped.2 := by
        intro stamped member
        obtain ⟨node, inside, rfl⟩ := List.mem_map.mp member
        have late := List.all_eq_true.mp heeds node inside
        show ¬ t < node.createdAt
        simpa using late
      show 0 = s.tree.validatesSince (s.tests ++ [t]).getLast?
      rw [List.getLast?_concat, validatesSince_eq, countSince_eq_zero older]
  | rollback nodeId =>
    unfold Session.step
    dsimp only
    cases moved : s.tree.setPosition nodeId with
    | error e => exact counted
    | ok tree =>
      obtain ⟨-, rfl⟩ := setPosition_eq_ok.mp moved
      exact counted
  | resume runRef =>
    show Counted (s.resume runRef)
    unfold Session.resume
    split_ifs
    · exact counted
    · exact rfl

theorem Counted.resume (counted : Counted s) (runRef : Text) :
    (s.resume runRef).validatesInInterval = s.validatesInInterval ∧
      (s.resume runRef).counted = s.counted ∧ (s.resume runRef).tests = s.tests ∧
      (s.resume runRef).tree = s.tree := by
  unfold Session.resume
  split_ifs
  · exact ⟨rfl, rfl, rfl, rfl⟩
  · exact ⟨counted.symm, rfl, rfl, rfl⟩

/-- The session cut into attempts and the uncut one, told apart by run references only. -/
structure Twin (s u : Session) : Prop where
  stamps : s.tree.nodes.map stamp = u.tree.nodes.map stamp
  tests : s.tests = u.tests
  interval : s.validatesInInterval = u.validatesInInterval
  counted : s.counted = u.counted

theorem Twin.refl (s : Session) : Twin s s := ⟨rfl, rfl, rfl, rfl⟩

variable {u : Session}

theorem Twin.validate (twin : Twin s u) (orderly : Orderly s) (orderly' : Orderly u)
    (batchId : Text) (candidates : List Replayed) :
    Twin (s.validate rules batchId candidates) (u.validate rules batchId candidates) := by
  have batches : s.tree.nodes.map StepNode.batchId = u.tree.nodes.map StepNode.batchId := by
    have same := congrArg (List.map Prod.fst) twin.stamps
    rw [List.map_map, List.map_map] at same
    exact same
  have alike : Refused rules s batchId candidates ↔ Refused rules u batchId candidates := by
    unfold Refused
    rw [twin.interval, batches]
  by_cases refused : Refused rules s batchId candidates
  · rw [validate_of_refused refused, validate_of_refused (alike.mp refused)]
    exact twin
  · have left := orderly.validated refused
    have right := orderly'.validated fun refused' => refused (alike.mpr refused')
    refine ⟨?_, ?_, ?_, ?_⟩
    · rw [left.stamps, right.stamps, twin.stamps]
    · rw [left.tests, right.tests, twin.tests]
    · rw [left.interval, right.interval, twin.interval]
    · rw [left.counted, right.counted, twin.counted]

theorem Twin.step (twin : Twin s u) (orderly : Orderly s) (orderly' : Orderly u) {event : Event}
    (cut : event.isResume = false) : Twin (s.step rules event) (u.step rules event) := by
  cases event with
  | validate batchId candidates => exact twin.validate orderly orderly' batchId candidates
  | test recordedAt =>
    cases recordedAt with
    | none => exact twin
    | some t =>
      refine ⟨twin.stamps, ?_, rfl, rfl⟩
      show s.tests ++ [t] = u.tests ++ [t]
      rw [twin.tests]
  | rollback nodeId =>
    have still : ∀ x : Session, Twin (x.step rules (.rollback nodeId)) x := by
      intro x
      unfold Session.step
      dsimp only
      cases moved : x.tree.setPosition nodeId with
      | error e => exact Twin.refl x
      | ok tree =>
        obtain ⟨-, rfl⟩ := setPosition_eq_ok.mp moved
        exact ⟨rfl, rfl, rfl, rfl⟩
    have left := still s
    have right := still u
    exact ⟨left.stamps.trans (twin.stamps.trans right.stamps.symm),
      left.tests.trans (twin.tests.trans right.tests.symm),
      left.interval.trans (twin.interval.trans right.interval.symm),
      left.counted.trans (twin.counted.trans right.counted.symm)⟩
  | resume runRef => cases cut

/-- No more calls are counted than the allowance. -/
def Allowed (rules : Rules) (s : Session) : Prop :=
  s.counted ≤ s.validatesInInterval ∧ s.counted ≤ rules.validatesPerStep

theorem Allowed.step (allowed : Allowed rules s) (counted : Counted s) (orderly : Orderly s)
    (event : Event) : Allowed rules (s.step rules event) := by
  unfold Allowed at allowed ⊢
  cases event with
  | validate batchId candidates =>
    show (s.validate rules batchId candidates).counted ≤
        (s.validate rules batchId candidates).validatesInInterval ∧
      (s.validate rules batchId candidates).counted ≤ _
    by_cases refused : Refused rules s batchId candidates
    · rw [validate_of_refused refused]
      exact allowed
    · have validated := orderly.validated refused
      have room := validated.allowed
      rw [validated.counted, validated.interval]
      omega
  | test recordedAt =>
    cases recordedAt with
    | none => exact allowed
    | some t => exact ⟨le_refl _, Nat.zero_le _⟩
  | rollback nodeId =>
    unfold Session.step
    dsimp only
    cases s.tree.setPosition nodeId with
    | error e => exact allowed
    | ok tree => exact allowed
  | resume runRef =>
    obtain ⟨interval, calls, -⟩ := counted.resume runRef
    show (s.resume runRef).counted ≤ (s.resume runRef).validatesInInterval ∧
      (s.resume runRef).counted ≤ _
    rw [interval, calls]
    exact allowed

theorem run_twin {events : List Event} (twin : Twin s u) (orderly : Orderly s)
    (orderly' : Orderly u) (counted : Counted s) (allowed : Allowed rules s)
    (heeds : s.heedsAll rules events = true) :
    Twin (s.run rules events) (u.run rules (events.filter fun event => !event.isResume)) ∧
      Allowed rules (s.run rules events) := by
  induction events generalizing s u with
  | nil => exact ⟨twin, allowed⟩
  | cons event events ih =>
    obtain ⟨here, later⟩ := Bool.and_eq_true_iff.mp heeds
    have orderly₁ : Orderly (s.step rules event) := orderly.step event
    have counted₁ := counted.step orderly here
    have allowed₁ := allowed.step counted orderly event
    cases cut : event.isResume with
    | false =>
      rw [List.filter_cons_of_pos (by rw [cut]; rfl)]
      exact ih (twin.step orderly orderly' cut) orderly₁ (orderly'.step event) counted₁ allowed₁
        later
    | true =>
      rw [List.filter_cons_of_neg (by rw [cut]; decide)]
      refine ih ?_ orderly₁ orderly' counted₁ allowed₁ later
      cases event with
      | resume runRef =>
        obtain ⟨interval, calls, tests, tree⟩ := counted.resume runRef
        refine ⟨?_, tests.trans twin.tests, interval.trans twin.interval,
          calls.trans twin.counted⟩
        show (s.resume runRef).tree.nodes.map stamp = _
        rw [tree]
        exact twin.stamps
      | _ => cases cut

end

/-- The allowance is the same however the session is cut into attempts. -/
theorem allowance_across_attempts {rules : Rules} {runRef : Text} {events : List Event}
    (heeds : (Session.start runRef).heedsAll rules events = true) :
    ((Session.start runRef).run rules events).validatesInInterval =
        ((Session.start runRef).run rules
          (events.filter fun event => !event.isResume)).validatesInInterval ∧
      ((Session.start runRef).run rules events).counted ≤ rules.validatesPerStep := by
  have start := orderly_start runRef
  have none_ : Allowed rules (Session.start runRef) := ⟨le_refl _, Nat.zero_le _⟩
  obtain ⟨twin, allowed⟩ := run_twin (Twin.refl _) start start rfl none_ heeds
  exact ⟨twin.interval, allowed.2⟩

def sampleRules (recordFailedAttempts : Bool) : Rules := ⟨1, recordFailedAttempts⟩

/-- A call whose candidates all failed, in an attempt that then ends. -/
def failedBatch (batchId time : String) : Event :=
  .validate batchId.toList [⟨.failed .strategy, time.toList⟩]

def cutAfterFailure : List Event :=
  [failedBatch "b1" "2026-01-05T09:00:00.000001+00:00", .resume "run_2".toList,
    failedBatch "b2" "2026-01-05T10:00:00.000001+00:00"]

theorem recorded_failure_counts :
    ((Session.start "run_1".toList).run (sampleRules true) cutAfterFailure).validatesInInterval =
        ((Session.start "run_1".toList).run (sampleRules true)
          (cutAfterFailure.filter fun event => !event.isResume)).validatesInInterval ∧
      ((Session.start "run_1".toList).run (sampleRules true) cutAfterFailure).counted ≤ 1 :=
  allowance_across_attempts (by decide +kernel)

/-- With `record_failed_attempts` off the resumed attempt starts its count again. -/
theorem unrecorded_failure_forgotten :
    ((Session.start "run_1".toList).run (sampleRules false)
        (cutAfterFailure.take 2)).validatesInInterval ≠
      ((Session.start "run_1".toList).run (sampleRules false)
        ((cutAfterFailure.take 2).filter fun event => !event.isResume)).validatesInInterval ∧
    ¬ ((Session.start "run_1".toList).run (sampleRules false) cutAfterFailure).counted ≤ 1 := by
  decide +kernel

end AutoTrade.ValidateAllowance
