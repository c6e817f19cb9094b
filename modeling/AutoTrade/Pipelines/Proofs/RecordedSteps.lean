import AutoTrade.Misc.Runs
import AutoTrade.Pipelines.RecordedSteps

/-!
# A recorded validation can be loaded

The session's tree outlives the attempt that wrote it, so a node whose sidecar
was never written is published by whatever publishes the tree next. Between two
events every complete node has its sidecar, in both trees.
-/

namespace AutoTrade.RecordedSteps

open StepTree

/-- Every complete node has its sidecar. -/
def Accounted (d : Disk) (tree : StepTree) : Prop :=
  ∀ node ∈ tree.nodes, node.completeValidation = true → ∃ sidecar,
    d.sidecars.get? node.nodeId = some sidecar

def Published.Loads (d : Disk) : Published → Prop
  | .absent => True
  | .unreadable => False
  | .tree t => Accounted d t

structure Kept (d : Disk) : Prop where
  /-- A sidecar names a committed revision and a result. -/
  stored : ∀ nodeId sidecar, d.sidecars.get? nodeId = some sidecar →
    (d.revisions.get? sidecar.revisionId).isSome = true ∧ sidecar.resultRef ∈ d.results
  session : ∀ tree, d.sessionTree = some tree → Accounted d tree
  published : d.published.Loads d

theorem kept_start : Kept {} where
  stored nodeId sidecar absurd := by cases absurd
  session tree absurd := by cases absurd
  published := trivial

section

variable {d : Disk}

theorem accounted_empty (d : Disk) : Accounted d {} := fun node absurd => by cases absurd

theorem Kept.tree (kept : Kept d) : Accounted d d.tree := by
  unfold Disk.tree
  cases same : d.sessionTree with
  | none => exact accounted_empty d
  | some tree => exact kept.session tree same

theorem Published.Loads.mono {d' : Disk} {published : Published} (loads : published.Loads d)
    (grown : ∀ t, Accounted d t → Accounted d' t) : published.Loads d' := by
  cases published with
  | absent => trivial
  | unreadable => exact loads
  | tree t => exact grown t loads

theorem mapM_ok_of_each {ε : Type} {α β : Type} {f : α → Except ε β} {P : α → β → Prop}
    {l : List α} (each : ∀ a ∈ l, ∃ b, f a = .ok b ∧ P a b) :
    ∃ bs, l.mapM f = .ok bs ∧ List.Forall₂ P l bs := by
  induction l with
  | nil => exact ⟨[], rfl, .nil⟩
  | cons a l ih =>
    obtain ⟨b, here, holds⟩ := each a List.mem_cons_self
    obtain ⟨bs, later, rest⟩ := ih fun a' member => each a' (List.mem_cons_of_mem a member)
    refine ⟨b :: bs, ?_, .cons holds rest⟩
    rw [List.mapM_cons, here, later]
    rfl

theorem Kept.loadStep (kept : Kept d) {node : StepNode} {sidecar : Sidecar}
    (found : d.sidecars.get? node.nodeId = some sidecar) :
    ∃ step, RecordedSteps.loadStep d node = .ok step ∧ node.nodeId = step.stepId := by
  obtain ⟨committed, present⟩ := kept.stored node.nodeId sidecar found
  obtain ⟨fingerprint, read⟩ := Option.isSome_iff_exists.mp committed
  refine ⟨⟨node.nodeId, sidecar, fingerprint⟩, ?_, rfl⟩
  unfold RecordedSteps.loadStep
  rw [found]
  dsimp only
  rw [if_pos present, read]

theorem Kept.load (kept : Kept d) : ∃ steps, loadRecordedSteps d = .ok steps ∧
    ∀ t, d.published = .tree t →
      List.Forall₂ (fun node step => node.nodeId = step.stepId) t.recordedNodes steps := by
  have loads := kept.published
  unfold loadRecordedSteps
  cases same : d.published with
  | absent => exact ⟨[], rfl, fun t absurd => by cases absurd⟩
  | unreadable =>
    rw [same] at loads
    exact absurd loads id
  | tree t =>
    rw [same] at loads
    obtain ⟨steps, read, named⟩ := mapM_ok_of_each (l := t.recordedNodes)
      (f := RecordedSteps.loadStep d) (P := fun node step => node.nodeId = step.stepId) (by
        intro node member
        obtain ⟨inside, complete⟩ := List.mem_filter.mp member
        obtain ⟨sidecar, found⟩ := loads node inside complete
        exact kept.loadStep found)
    refine ⟨steps, read, fun t' same' => ?_⟩
    obtain rfl : t = t' := Published.tree.inj same'
    exact named

/-- What a kill must not leave: a completed node without its sidecar, or a part of
    the published tree. -/
def Write.leavesOpen : Write → Bool
  | .saveTree _ recording => recording
  | .beginCopy => true
  | _ => false

theorem Kept.savedTree (kept : Kept d) {t : StepTree} (accounted : Accounted d t) :
    Kept { d with sessionTree := some t } where
  stored := kept.stored
  session t' same := by
    rw [← Option.some.inj same]
    exact accounted
  published := kept.published

theorem Kept.unpublished (kept : Kept d) : Kept { d with published := .absent } where
  stored := kept.stored
  session := kept.session
  published := trivial

theorem Kept.publishedTree (kept : Kept d) : Kept (d.apply .publish) where
  stored := kept.stored
  session := kept.session
  published := by
    show ((d.sessionTree.map Published.tree).getD .absent).Loads _
    cases same : d.sessionTree with
    | none => trivial
    | some t => exact kept.session t same

theorem survivors_all {writes : List Write} {n : Nat} (all : writes.length ≤ n) :
    survivors writes (some n) = writes := List.take_of_length_le all

theorem Kept.publish (kept : Kept d) {linked : Bool} {killedAfter : Option Nat}
    (closed : (survivors (publishWrites linked) killedAfter).getLast?.all
      (fun write => !write.leavesOpen) = true) :
    Kept ((survivors (publishWrites linked) killedAfter).foldl Disk.apply d) := by
  have removed := kept.unpublished
  have republished : Kept ((d.apply .removePublished).apply .publish) := removed.publishedTree
  have copied : Kept (((d.apply .removePublished).apply .beginCopy).apply .publish) := republished
  cases linked with
  | true =>
    match killedAfter with
    | none => exact republished
    | some 0 => exact kept
    | some 1 => exact removed
    | some (n + 2) =>
      rw [survivors_all (show (publishWrites true).length ≤ n + 2 by exact Nat.le_add_left 2 n)]
      exact republished
  | false =>
    match killedAfter with
    | none => exact copied
    | some 0 => exact kept
    | some 1 => exact removed
    | some 2 => cases closed
    | some (n + 3) =>
      rw [survivors_all (show (publishWrites false).length ≤ n + 3 by exact Nat.le_add_left 3 n)]
      exact copied

theorem accounted_append {t t' : StepTree} {node : StepNode} (accounted : Accounted d t)
    (nodes : t'.nodes = t.nodes ++ [node])
    (last : node.completeValidation = true → ∃ sidecar,
      d.sidecars.get? node.nodeId = some sidecar) : Accounted d t' := by
  intro node' member complete
  rw [nodes] at member
  rcases List.mem_append.mp member with old | new
  · exact accounted node' old complete
  · rw [List.mem_singleton.mp new] at complete ⊢
    exact last complete

theorem Accounted.set {t : StepTree} (accounted : Accounted d t) (nodeId : NodeId)
    (sidecar : Sidecar) (session : Option StepTree) :
    Accounted { d with sidecars := d.sidecars.set nodeId sidecar, sessionTree := session } t := by
  intro node member complete
  obtain ⟨held, found⟩ := accounted node member complete
  by_cases same : nodeId = node.nodeId
  · exact ⟨sidecar, by rw [same]; exact Dict.get?_set_self d.sidecars _ sidecar⟩
  · exact ⟨held, (Dict.get?_set_of_ne d.sidecars sidecar same).trans found⟩

theorem Kept.recorded (kept : Kept d) {nodeId : NodeId} {createdAt : Text} {sidecar : Sidecar}
    {t : StepTree} (committed : (d.revisions.get? sidecar.revisionId).isSome = true)
    (present : sidecar.resultRef ∈ d.results)
    (recorded : d.tree.recordStep nodeId sidecar.revisionId sidecar.batchId createdAt = .ok t) :
    Kept ((d.apply (.saveTree t true)).apply (.writeSidecar nodeId sidecar)) := by
  obtain ⟨-, same⟩ := recordStep_eq_ok.mp recorded
  refine ⟨fun nodeId' sidecar' found => ?_, fun t' held => ?_, ?_⟩
  · have looked : (d.sidecars.set nodeId sidecar).get? nodeId' = some sidecar' := found
    rw [Dict.get?_set] at looked
    split_ifs at looked
    · rw [← Option.some.inj looked]
      exact ⟨committed, present⟩
    · exact kept.stored nodeId' sidecar' looked
  · rw [← Option.some.inj held]
    apply accounted_append (kept.tree.set nodeId sidecar (some t)) (by rw [same])
    intro _
    exact ⟨sidecar, Dict.get?_set_self d.sidecars nodeId sidecar⟩
  · exact kept.published.mono fun t' accounted => accounted.set nodeId sidecar (some t)

end

/-- No attempt dies between its tree save and its sidecar, or within a copy. -/
def World.heeds (w : World) (event : Event) : Bool :=
  !w.live || (survivors (w.disk.writes event) event.killedAfter).getLast?.all fun write =>
    !write.leavesOpen

def World.heedsAll (w : World) : List Event → Bool
  | [] => true
  | event :: events => w.heeds event && (w.step event).heedsAll events

section

variable {d : Disk}

theorem survivors_cons (write : Write) (writes : List Write) (killedAfter : Option Nat) :
    survivors (write :: writes) killedAfter = [] ∨
      ∃ killedAfter', survivors (write :: writes) killedAfter =
        write :: survivors writes killedAfter' := by
  match killedAfter with
  | none => exact .inr ⟨none, rfl⟩
  | some 0 => exact .inl rfl
  | some (n + 1) => exact .inr ⟨some n, rfl⟩

theorem getLast?_cons_all {write : Write} {writes : List Write} {p : Write → Bool}
    (closed : (write :: writes).getLast?.all p = true) : writes.getLast?.all p = true := by
  cases writes with
  | nil => rfl
  | cons next rest =>
    rw [List.getLast?_cons_cons] at closed
    exact closed

theorem Kept.nothing (kept : Kept d) (killedAfter : Option Nat) :
    Kept ((survivors [] killedAfter).foldl Disk.apply d) := by
  cases killedAfter with
  | none => exact kept
  | some n =>
    show Kept ((List.take n []).foldl Disk.apply d)
    rw [List.take_nil]
    exact kept

theorem Kept.recordValidation (kept : Kept d) {nodeId : NodeId} {sidecar : Sidecar}
    {t : StepTree} {linked : Bool} {killedAfter : Option Nat}
    (recorded : Kept ((d.apply (.saveTree t true)).apply (.writeSidecar nodeId sidecar)))
    (closed : (survivors (.saveTree t true :: .writeSidecar nodeId sidecar ::
      publishWrites linked) killedAfter).getLast?.all (fun write => !write.leavesOpen) = true) :
    Kept ((survivors (.saveTree t true :: .writeSidecar nodeId sidecar ::
      publishWrites linked) killedAfter).foldl Disk.apply d) := by
  rcases survivors_cons (.saveTree t true) (.writeSidecar nodeId sidecar :: publishWrites linked)
    killedAfter with none_ | ⟨killedAfter', first⟩
  · rw [none_]
    exact kept
  · rw [first] at closed ⊢
    rcases survivors_cons (.writeSidecar nodeId sidecar) (publishWrites linked) killedAfter' with
      none_ | ⟨killedAfter'', second⟩
    · -- killed between the tree and the sidecar
      rw [none_] at closed
      cases closed
    · rw [second] at closed ⊢
      exact recorded.publish (getLast?_cons_all (getLast?_cons_all closed))

theorem Kept.recordFailure (kept : Kept d) {t : StepTree} {linked : Bool}
    {killedAfter : Option Nat} (accounted : Accounted d t)
    (closed : (survivors (.saveTree t false :: publishWrites linked) killedAfter).getLast?.all
      (fun write => !write.leavesOpen) = true) :
    Kept ((survivors (.saveTree t false :: publishWrites linked) killedAfter).foldl
      Disk.apply d) := by
  rcases survivors_cons (.saveTree t false) (publishWrites linked) killedAfter with
    none_ | ⟨killedAfter', first⟩
  · rw [none_]
    exact kept
  · rw [first] at closed ⊢
    exact (kept.savedTree accounted).publish (getLast?_cons_all closed)

theorem Kept.writes (kept : Kept d) (event : Event)
    (closed : (survivors (d.writes event) event.killedAfter).getLast?.all
      (fun write => !write.leavesOpen) = true) :
    Kept ((survivors (d.writes event) event.killedAfter).foldl Disk.apply d) := by
  cases event with
  | recordValidation nodeId createdAt sidecar linked killedAfter =>
    unfold Disk.writes at closed ⊢
    dsimp only at closed ⊢
    split_ifs at closed ⊢ with ready
    · cases recorded : d.tree.recordStep nodeId sidecar.revisionId sidecar.batchId createdAt with
      | error e => exact kept.nothing killedAfter
      | ok t =>
        rw [recorded] at closed
        exact kept.recordValidation (kept.recorded ready.1 ready.2 recorded) closed
    · exact kept.nothing killedAfter
  | recordFailure nodeId batchId createdAt linked killedAfter =>
    unfold Disk.writes at closed ⊢
    dsimp only at closed ⊢
    cases recorded : d.tree.recordFailedAttempt nodeId batchId createdAt with
    | error e => exact kept.nothing killedAfter
    | ok t =>
      rw [recorded] at closed
      obtain ⟨-, same⟩ := recordFailedAttempt_eq_ok.mp recorded
      refine kept.recordFailure (accounted_append kept.tree (by rw [same]) ?_) closed
      intro absurd
      cases absurd
  | rollback nodeId =>
    unfold Disk.writes
    dsimp only
    cases moved : d.tree.setPosition nodeId with
    | error e => exact kept
    | ok t =>
      obtain ⟨-, rfl⟩ := setPosition_eq_ok.mp moved
      have accounted : Accounted d { d.tree with currentNodeId := nodeId } := kept.tree
      exact kept.savedTree accounted
  | publish linked killedAfter =>
    unfold Disk.writes at closed ⊢
    dsimp only at closed ⊢
    split_ifs at closed ⊢
    · exact kept.publish closed
    · exact kept.nothing killedAfter
  | commit => exact kept
  | replay => exact kept
  | kill => exact kept
  | resume => exact kept

theorem Kept.install (kept : Kept d) : Kept d.install := by
  unfold Disk.install
  split
  · next tree none_ same =>
    have loads := kept.published
    rw [same] at loads
    exact kept.savedTree loads
  · exact kept

theorem Kept.step {w : World} (kept : Kept w.disk) {event : Event} (heeds : w.heeds event = true) :
    Kept (w.step event).disk := by
  have operation : Kept (if w.live then w.write (w.disk.writes event) event.killedAfter
      else w).disk := by
    unfold World.heeds at heeds
    cases live : w.live with
    | false => exact kept
    | true =>
      rw [live, Bool.not_true, Bool.false_or] at heeds
      exact kept.writes event heeds
  cases event with
  | commit revisionId fingerprint =>
    refine ⟨fun nodeId sidecar found => ?_, kept.session, kept.published.mono fun _ same => same⟩
    obtain ⟨committed, present⟩ := kept.stored nodeId sidecar found
    refine ⟨?_, present⟩
    show ((w.disk.revisions.set revisionId fingerprint).get? _).isSome = true
    rw [Dict.get?_set]
    split_ifs
    · rfl
    · exact committed
  | replay resultRef =>
    refine ⟨fun nodeId sidecar found => ?_, kept.session, kept.published.mono fun _ same => same⟩
    obtain ⟨committed, present⟩ := kept.stored nodeId sidecar found
    exact ⟨committed, List.mem_append_left _ present⟩
  | kill => exact kept
  | resume =>
    unfold World.step
    dsimp only
    split
    · exact kept.install
    · exact kept
  | recordValidation => exact operation
  | recordFailure => exact operation
  | rollback => exact operation
  | publish => exact operation

theorem Kept.run {w : World} (kept : Kept w.disk) {events : List Event}
    (heeds : w.heedsAll events = true) : Kept (w.run events).disk := by
  induction events generalizing w with
  | nil => exact kept
  | cons event events ih =>
    obtain ⟨here, later⟩ := Bool.and_eq_true_iff.mp heeds
    exact ih (kept.step here) later

end

/-- The next attempt loads what is recorded: every complete node of the published
    tree has its sidecar. -/
structure Loadable (d : Disk) : Prop where
  sidecars : ∀ t, d.published = .tree t → ∀ node ∈ t.recordedNodes, ∃ sidecar,
    d.sidecars.get? node.nodeId = some sidecar
  load : ∃ steps, loadRecordedSteps d = .ok steps ∧ ∀ t, d.published = .tree t →
    List.Forall₂ (fun node step => node.nodeId = step.stepId) t.recordedNodes steps

/-- A recorded validation never blocks a resume, when no attempt dies between its
    tree save and its sidecar write or within a copy of the published tree. -/
theorem recorded_steps_load {events : List Event} (heeds : World.heedsAll {} events = true) :
    Loadable (World.run {} events).disk := by
  have kept : Kept (World.run {} events).disk := kept_start.run heeds
  refine ⟨fun t same node member => ?_, kept.load⟩
  have loads := kept.published
  rw [same] at loads
  obtain ⟨inside, complete⟩ := List.mem_filter.mp member
  exact loads node inside complete

def sampleSidecar : Sidecar where
  revisionId := "rev_1".toList
  span := "full".toList
  summary := []
  resultRef := "results/valid_001.json".toList
  control := false
  batchId := "b1".toList

/-- A validation recorded up to a write, and the next attempt, which publishes the tree. -/
def recordedThenKilled (killedAfter : Nat) : List Event :=
  [.resume, .commit "rev_1".toList "f1".toList, .replay "results/valid_001.json".toList,
    .recordValidation ⟨"run_1".toList, 1⟩ "2026-01-05T09:00:00+00:00".toList sampleSidecar true
      (some killedAfter), .resume, .publish true none]

theorem killed_in_publication_loads : Loadable (World.run {} (recordedThenKilled 3)).disk :=
  recorded_steps_load (by decide +kernel)

/-- Killed before the sidecar is written, the validation blocks every later resume. -/
theorem killed_before_sidecar_blocks :
    ¬ Loadable (World.run {} (recordedThenKilled 1)).disk := by
  intro loadable
  obtain ⟨steps, loads, -⟩ := loadable.load
  have blocked : (loadRecordedSteps (World.run {} (recordedThenKilled 1)).disk).toOption.isNone =
      true := by
    decide +kernel
  rw [loads] at blocked
  cases blocked

end AutoTrade.RecordedSteps
