import AutoTrade.Environment.Data.Contracts
import AutoTrade.Misc.Runs
import Mathlib.Data.List.Forall2
import Mathlib.Tactic.Choose

/-!
# Cutoffs are step functions

The cutoff of a dataset is the start of the last of its refresh nodes to have
completed; it stays what it is until the boundary said for it, and never falls.
-/

namespace AutoTrade

theorem microsPerDay_eq : (microsPerDay : Int) = 86400000000 := rfl

theorem microsPerMinute_eq : (microsPerMinute : Int) = 60000000 := rfl

/-- A node that completes on the day it starts or the next, and runs in every week. -/
def RefreshNode.Weekly (node : RefreshNode) : Prop :=
  node.start < 24 * 60 ∧ node.durationMinutes ≤ 24 * 60 ∧
    ∃ day ∈ [0, 1, 2, 3, 4, 5, 6], runsOn node.name day = true

instance (node : RefreshNode) : Decidable node.Weekly := inferInstanceAs (Decidable (_ ∧ _))

/-- A run of a node has completed. -/
def RefreshNode.Completed (node : RefreshNode) (now : WallTime) (day : Int) : Prop :=
  runsOn node.name day = true ∧ node.readyAt day ≤ now.cn

/-- The last run of a node to have completed. -/
def RefreshNode.Latest (node : RefreshNode) (now : WallTime) (day : Int) : Prop :=
  node.Completed now day ∧ ∀ other, node.Completed now other → other ≤ day

section

variable {node : RefreshNode} {now later : WallTime} {day : Int}

theorem runsOn_of_weekday {name : String} {other : Int} (runs : runsOn name day = true)
    (same : other % 7 = day % 7) : runsOn name other = true := by
  unfold runsOn weekday at runs ⊢
  rwa [same]

namespace RefreshNode

theorem readyAt_bounds (weekly : node.Weekly) (day : Int) :
    day * microsPerDay ≤ node.startAt day ∧ node.startAt day ≤ node.readyAt day ∧
      node.readyAt day < (day + 2) * microsPerDay := by
  have ⟨begins, lasts, _⟩ := weekly
  unfold readyAt startAt
  rw [microsPerDay_eq, microsPerMinute_eq]
  omega

theorem startAt_mono {day other : Int} (before : day ≤ other) :
    node.startAt day ≤ node.startAt other := by
  unfold startAt
  rw [microsPerDay_eq, microsPerMinute_eq]
  omega

theorem readyAt_lt {day other : Int} (before : day < other) :
    node.readyAt day < node.readyAt other := by
  unfold readyAt startAt
  rw [microsPerDay_eq, microsPerMinute_eq]
  omega

theorem exists_run (weekly : node.Weekly) (first : Int) :
    ∃ day, first ≤ day ∧ day < first + 7 ∧ runsOn node.name day = true := by
  have ⟨_, _, one, member, runs⟩ := weekly
  refine ⟨first + (one - first) % 7, by omega, by omega, runsOn_of_weekday runs ?_⟩
  omega

theorem Completed.mono (completed : node.Completed now day) (after : now.cn ≤ later.cn) :
    node.Completed later day := ⟨completed.1, completed.2.trans after⟩

theorem Completed.le_base (weekly : node.Weekly) (completed : node.Completed now day) :
    day ≤ now.cn / microsPerDay := by
  have ⟨begins, ends, _⟩ := readyAt_bounds weekly day
  refine (Int.le_ediv_iff_mul_le ?_).mpr ((begins.trans ends).trans completed.2)
  rw [microsPerDay_eq]
  omega

theorem completed_of_old (weekly : node.Weekly) (runs : runsOn node.name day = true)
    (old : day + 2 ≤ now.cn / microsPerDay) : node.Completed now day := by
  have ⟨_, _, before⟩ := readyAt_bounds weekly day
  refine ⟨runs, before.le.trans ?_⟩
  refine (Int.le_ediv_iff_mul_le ?_).mp old
  rw [microsPerDay_eq]
  omega

theorem Latest.unique {other : Int} (latest : node.Latest now day)
    (latest' : node.Latest now other) : day = other :=
  le_antisymm (latest'.2 day latest.1) (latest.2 other latest'.1)

end RefreshNode

end

open RefreshNode

section

variable {node : RefreshNode} {now later : WallTime} {day : Int}

theorem nodeVisibleCutoff_eq (weekly : node.Weekly) (now : WallTime) :
    ∃ day, node.Latest now day ∧ nodeVisibleCutoff node now = some (node.startAt day) := by
  have ⟨old, first, last, runs⟩ := exists_run weekly (now.cn / microsPerDay - 8)
  have completed : node.Completed now old := completed_of_old weekly runs (by omega)
  unfold nodeVisibleCutoff
  dsimp only
  cases found : (List.range 10).find? fun (delta : Nat) =>
      runsOn node.name (now.cn / microsPerDay - delta) &&
        node.readyAt (now.cn / microsPerDay - delta) ≤ now.cn with
  | none =>
    have passed := List.find?_eq_none.mp found (now.cn / microsPerDay - old).toNat
      (List.mem_range.mpr (by omega))
    have same : now.cn / microsPerDay - ((now.cn / microsPerDay - old).toNat : Int) = old := by
      omega
    rw [same] at passed
    simp only [completed.1, completed.2, decide_true, Bool.and_self, not_true] at passed
  | some delta =>
    have ⟨here, _, before⟩ := List.find?_range_eq_some.mp found
    simp only [Bool.and_eq_true, decide_eq_true_eq] at here
    refine ⟨now.cn / microsPerDay - delta, ⟨here, fun other done => ?_⟩, rfl⟩
    by_contra further
    have within := done.le_base weekly
    have passed := before (now.cn / microsPerDay - other).toNat (by omega)
    have same : now.cn / microsPerDay - ((now.cn / microsPerDay - other).toNat : Int) = other := by
      omega
    rw [same] at passed
    simp only [done.1, done.2, decide_true, Bool.and_self, Bool.not_true] at passed
    cases passed

theorem latest_iff (quiet : ∀ other, runsOn node.name other = true → now.cn < node.readyAt other →
      later.cn < node.readyAt other) (after : now.cn ≤ later.cn) :
    node.Latest later day ↔ node.Latest now day := by
  have same : ∀ other, node.Completed later other ↔ node.Completed now other := by
    refine fun other => ⟨fun done => ⟨done.1, ?_⟩, fun done => done.mono after⟩
    by_contra open'
    exact absurd (quiet other done.1 (not_le.mp open')) (not_lt.mpr done.2)
  unfold RefreshNode.Latest
  simp only [same]

end

/-- Runs of two nodes that complete in order have started in order. -/
def RefreshNode.InOrder (m n : RefreshNode) : Prop :=
  (m.start : Int) + 24 * 60 * (((n.start + n.durationMinutes : Int) -
    (m.start + m.durationMinutes)) / (24 * 60)) ≤ n.start

instance (m n : RefreshNode) : Decidable (m.InOrder n) := inferInstanceAs (Decidable (_ ≤ _))

theorem RefreshNode.InOrder.startAt_le {m n : RefreshNode} {day other : Int} (order : m.InOrder n)
    (ready : m.readyAt day ≤ n.readyAt other) : m.startAt day ≤ n.startAt other := by
  unfold InOrder at order
  unfold readyAt startAt at ready
  unfold startAt
  rw [microsPerDay_eq, microsPerMinute_eq] at *
  have days : day - other ≤ ((n.start + n.durationMinutes : Int) -
      (m.start + m.durationMinutes)) / (24 * 60) := by omega
  omega

/-- The nodes of a dataset are known, and do not overtake each other. -/
structure Scheduled (names : List String) (nodes : List RefreshNode) : Prop where
  known : names.mapM refreshNode = .ok nodes
  weekly : ∀ node ∈ nodes, node.Weekly
  inOrder : ∀ m ∈ nodes, ∀ n ∈ nodes, m.InOrder n

/-- The latest start among the last runs to have completed. -/
def IsCutoff (nodes : List RefreshNode) (now : WallTime) (cutoff : Int) : Prop :=
  (∃ node ∈ nodes, ∃ day, node.Latest now day ∧ node.startAt day = cutoff) ∧
    ∀ node ∈ nodes, ∀ day, node.Latest now day → node.startAt day ≤ cutoff

section

variable {names : List String} {nodes : List RefreshNode} {now later : WallTime}

theorem refreshNode_name {name : String} {node : RefreshNode}
    (known : refreshNode name = .ok node) : node.name = name := by
  unfold refreshNode at known
  split at known
  · rename_i found
    obtain rfl := Except.ok.inj known
    simpa using List.find?_some found
  · cases known

theorem mapM_refreshNode {β : Type} {f : String → RefreshNode → β}
    (known : names.mapM refreshNode = .ok nodes) :
    (names.mapM fun name => do return f name (← refreshNode name)) =
      .ok (nodes.map fun node => f node.name node) := by
  refine mapM_eq_ok.mpr (List.forall₂_map_right_iff.mpr ?_)
  refine (mapM_eq_ok.mp known).imp fun name node found => ?_
  rw [found, refreshNode_name found]
  rfl

theorem exists_last (scheduled : Scheduled names nodes) (now : WallTime) :
    ∃ last : RefreshNode → Int, ∀ node ∈ nodes, node.Latest now (last node) ∧
      nodeVisibleCutoff node now = some (node.startAt (last node)) := by
  have each : ∀ node, node ∈ nodes → ∃ day, node.Latest now day ∧
      nodeVisibleCutoff node now = some (node.startAt day) :=
    fun node member => nodeVisibleCutoff_eq (scheduled.weekly node member) now
  choose! last spec using each
  exact ⟨last, spec⟩

theorem visibleCutoff_eq (scheduled : Scheduled names nodes) (now : WallTime) :
    ∃ cutoff, visibleCutoff names now = .ok cutoff ∧ (cutoff = none → nodes = []) ∧
      ∀ t, cutoff = some t ↔ IsCutoff nodes now t := by
  have ⟨last, spec⟩ := exists_last scheduled now
  have latest := fun node member => (spec node member).1
  have found := fun node member => (spec node member).2
  have cutoffs : (nodes.map fun node => nodeVisibleCutoff node now).reduceOption =
      nodes.map fun node => node.startAt (last node) := by
    rw [List.map_congr_left found]
    show List.filterMap id _ = _
    simp [List.filterMap_map]
  refine ⟨(nodes.map fun node => node.startAt (last node)).max?, ?_, fun none => ?_,
    fun t => ?_⟩
  · unfold visibleCutoff
    rw [mapM_refreshNode scheduled.known (f := fun _ node => nodeVisibleCutoff node now)]
    exact congrArg (fun l => Except.ok l.max?) cutoffs
  · exact List.map_eq_nil_iff.mp (List.max?_eq_none_iff.mp none)
  · rw [List.max?_eq_some_iff]
    simp only [List.mem_map, forall_exists_index, and_imp, forall_apply_eq_imp_iff₂]
    constructor
    · rintro ⟨⟨node, member, same⟩, most⟩
      refine ⟨⟨node, member, last node, latest node member, same⟩, fun other there day is => ?_⟩
      rw [is.unique (latest other there)]
      exact most other there
    · rintro ⟨⟨node, member, day, is, same⟩, most⟩
      rw [is.unique (latest node member)] at same
      exact ⟨⟨node, member, same⟩, fun other there => most other there _ (latest other there)⟩

/-- The runs among which the boundary is sought. -/
def boundaries (nodes : List RefreshNode) (now : WallTime) : List Int :=
  (nodes.map fun node =>
    ((((List.range 12).map fun (delta : Nat) => now.cn / microsPerDay + (delta - 1)).filter
      (runsOn node.name)).map node.readyAt).filter (now.cn < ·)).flatten

theorem mem_boundaries {node : RefreshNode} {day : Int} (member : node ∈ nodes)
    (runs : runsOn node.name day = true) (ahead : now.cn < node.readyAt day)
    (first : now.cn / microsPerDay - 1 ≤ day) (last : day ≤ now.cn / microsPerDay + 10) :
    node.readyAt day ∈ boundaries nodes now := by
  refine List.mem_flatten.mpr ⟨_, List.mem_map_of_mem member, ?_⟩
  refine List.mem_filter.mpr ⟨List.mem_map_of_mem (List.mem_filter.mpr ⟨?_, runs⟩), ?_⟩
  · refine List.mem_map.mpr ⟨(day - (now.cn / microsPerDay - 1)).toNat, ?_, by omega⟩
    exact List.mem_range.mpr (by omega)
  · exact decide_eq_true ahead

theorem exists_boundary {node : RefreshNode} {day : Int} (weekly : node.Weekly)
    (member : node ∈ nodes) (runs : runsOn node.name day = true)
    (ahead : now.cn < node.readyAt day) :
    ∃ other ≤ day, node.readyAt other ∈ boundaries nodes now := by
  have positive : (0 : Int) < microsPerDay := by
    rw [microsPerDay_eq]
    omega
  by_cases near : day ≤ now.cn / microsPerDay + 10
  · refine ⟨day, le_rfl, mem_boundaries member runs ahead ?_ near⟩
    have ⟨_, _, before⟩ := readyAt_bounds weekly day
    have := (Int.ediv_lt_iff_lt_mul positive).mpr (ahead.trans before)
    omega
  · have ⟨other, first, last, runs'⟩ := exists_run weekly (now.cn / microsPerDay + 1)
    have ⟨begins, ends, _⟩ := readyAt_bounds weekly other
    have ahead' : now.cn < other * microsPerDay :=
      (Int.ediv_lt_iff_lt_mul positive).mp (by omega)
    refine ⟨other, by omega, mem_boundaries member runs' ?_ (by omega) (by omega)⟩
    exact ahead'.trans_le (begins.trans ends)

theorem nextVisibleBoundary_eq (scheduled : Scheduled names nodes) (now : WallTime) :
    ∃ boundary, nextVisibleBoundary names now = .ok boundary ∧ (boundary = none → nodes = []) ∧
      ∀ t, boundary = some t → ∀ node ∈ nodes, ∀ day, runsOn node.name day = true →
        now.cn < node.readyAt day → t ≤ node.readyAt day := by
  refine ⟨(boundaries nodes now).min?, ?_, fun none => ?_,
    fun t found node member day runs ahead => ?_⟩
  · unfold nextVisibleBoundary
    dsimp only
    rw [mapM_refreshNode scheduled.known]
    rfl
  · -- every node runs again within the days searched
    have empty := List.min?_eq_none_iff.mp none
    refine List.eq_nil_iff_forall_not_mem.mpr fun node member => ?_
    have weekly := scheduled.weekly node member
    have ⟨day, first, _, runs⟩ := exists_run weekly (now.cn / microsPerDay + 1)
    have ⟨begins, ends, _⟩ := readyAt_bounds weekly day
    have ahead : now.cn < day * microsPerDay := by
      refine (Int.ediv_lt_iff_lt_mul ?_).mp (by omega)
      rw [microsPerDay_eq]
      omega
    have ⟨other, _, there⟩ := exists_boundary weekly member runs
      (ahead.trans_le (begins.trans ends))
    rw [empty] at there
    cases there
  · have ⟨other, before, there⟩ := exists_boundary (scheduled.weekly node member) member runs ahead
    have least := (List.min?_eq_some_iff.mp found).2 _ there
    refine least.trans ?_
    rcases before.eq_or_lt with rfl | earlier
    · exact le_rfl
    · exact (readyAt_lt earlier).le

end

/-- A run of one of the nodes that completed no earlier than any other did. -/
def MostRecent (nodes : List RefreshNode) (now : WallTime) (node : RefreshNode) (day : Int) :
    Prop :=
  node ∈ nodes ∧ node.Completed now day ∧
    ∀ other ∈ nodes, ∀ day', other.Completed now day' → other.readyAt day' ≤ node.readyAt day

/-- A cutoff that only rises, that is as it was until the boundary said at any time, and that is
no later than the start of the run of the nodes to have completed most recently. -/
structure StepFunction (nodes : List RefreshNode)
    (cutoff boundary : WallTime → Except String (Option Int)) : Prop where
  returns : ∀ now, ∃ t b, cutoff now = .ok t ∧ boundary now = .ok b
  mono : ∀ {now later : WallTime}, now.cn ≤ later.cn → ∀ {t}, cutoff now = .ok (some t) →
    ∃ t' ≥ t, cutoff later = .ok (some t')
  constant : ∀ {now later : WallTime}, now.cn ≤ later.cn →
    (∀ b, boundary now = .ok (some b) → later.cn < b) → cutoff later = cutoff now
  recent : ∀ {now : WallTime} {t}, cutoff now = .ok (some t) →
    (∃ node day, MostRecent nodes now node day) ∧
      ∀ node day, MostRecent nodes now node day → t ≤ node.startAt day

theorem Scheduled.stepFunction {names : List String} {nodes : List RefreshNode}
    (scheduled : Scheduled names nodes) :
    StepFunction nodes (visibleCutoff names) (nextVisibleBoundary names) where
  returns now := by
    have ⟨t, cut, _⟩ := visibleCutoff_eq scheduled now
    have ⟨b, bound, _⟩ := nextVisibleBoundary_eq scheduled now
    exact ⟨t, b, cut, bound⟩
  mono := by
    intro now later after t cut
    have ⟨t₀, cut₀, _, is⟩ := visibleCutoff_eq scheduled now
    have ⟨t', cut', some', is'⟩ := visibleCutoff_eq scheduled later
    have ⟨⟨node, member, day, latest, same⟩, _⟩ :=
      (is t).mp (Except.ok.inj (cut₀.symm.trans cut))
    have ⟨day', latest', _⟩ := nodeVisibleCutoff_eq (scheduled.weekly node member) later
    have further := latest'.2 day (latest.1.mono after)
    cases t' with
    | none =>
      rw [some' rfl] at member
      cases member
    | some t' =>
      have most := ((is' t').mp rfl).2 node member day' latest'
      exact ⟨t', (same.symm.trans_le (startAt_mono further)).trans most, cut'⟩
  constant := by
    intro now later after before
    have ⟨t, cut, _, is⟩ := visibleCutoff_eq scheduled now
    have ⟨t', cut', _, is'⟩ := visibleCutoff_eq scheduled later
    have ⟨b, bound, empty, least⟩ := nextVisibleBoundary_eq scheduled now
    have same : ∀ node ∈ nodes, ∀ day, node.Latest later day ↔ node.Latest now day := by
      intro node member day
      refine latest_iff (fun other runs ahead => ?_) after
      cases b with
      | none =>
        rw [empty rfl] at member
        cases member
      | some b => exact (before b bound).trans_le (least b rfl node member other runs ahead)
    rw [cut, cut']
    refine congrArg Except.ok (Option.ext fun cutoff => ?_)
    rw [is, is']
    unfold IsCutoff
    constructor
    · rintro ⟨⟨node, member, day, latest, start⟩, most⟩
      exact ⟨⟨node, member, day, (same node member day).mp latest, start⟩,
        fun other there day' last => most other there day' ((same other there day').mpr last)⟩
    · rintro ⟨⟨node, member, day, latest, start⟩, most⟩
      exact ⟨⟨node, member, day, (same node member day).mpr latest, start⟩,
        fun other there day' last => most other there day' ((same other there day').mp last)⟩
  recent := by
    intro now t cut
    have ⟨t₀, cut₀, _, is⟩ := visibleCutoff_eq scheduled now
    have ⟨⟨node, member, day, latest, start⟩, _⟩ :=
      (is t).mp (Except.ok.inj (cut₀.symm.trans cut))
    refine ⟨?_, fun other day' recent => ?_⟩
    · have ⟨last, spec⟩ := exists_last scheduled now
      have ⟨most, found⟩ : ∃ most, (nodes.map fun n => n.readyAt (last n)).max? = some most :=
        Option.ne_none_iff_exists'.mp fun none => by
          rw [List.map_eq_nil_iff.mp (List.max?_eq_none_iff.mp none)] at member
          cases member
      have ⟨there, upper⟩ := List.max?_eq_some_iff.mp found
      have ⟨best, one, same⟩ := List.mem_map.mp there
      refine ⟨best, last best, one, (spec best one).1.1, fun other listed day' done => ?_⟩
      have earlier := (spec other listed).1.2 day' done
      rw [same]
      refine le_trans ?_ (upper _ (List.mem_map_of_mem listed))
      rcases earlier.eq_or_lt with rfl | before
      · exact le_rfl
      · exact (readyAt_lt before).le
    · have ⟨listed, _, most⟩ := recent
      rw [← start]
      exact (scheduled.inOrder node member other listed).startAt_le
        (most node member day latest.1)

/-- The nodes of these names are scheduled. -/
def scheduledNames (names : List String) : Bool :=
  match names.mapM refreshNode with
  | .ok nodes => (∀ node ∈ nodes, node.Weekly) && (∀ m ∈ nodes, ∀ n ∈ nodes, m.InOrder n)
  | .error _ => false

/-- So are those of every dataset of a table, and of the datasets it leaves out. -/
def TableScheduled (table : List (String × List String)) (others : List String) : Prop :=
  ∀ names ∈ others :: table.map Prod.snd, scheduledNames names = true

theorem TableScheduled.scheduled {table : List (String × List String)} {others : List String}
    (sound : TableScheduled table others) (dataset : String) :
    ∃ nodes, Scheduled (nodesOf table others dataset) nodes := by
  have listed : nodesOf table others dataset ∈ others :: table.map Prod.snd := by
    unfold nodesOf
    cases found : table.lookup dataset with
    | none => exact List.mem_cons_self
    | some names =>
      have ⟨before, after, same, _⟩ := List.lookup_eq_some_iff.mp found
      refine List.mem_cons_of_mem _ (List.mem_map.mpr ⟨(dataset, names), ?_, rfl⟩)
      rw [same]
      exact List.mem_append_right _ List.mem_cons_self
  have one := sound _ listed
  unfold scheduledNames at one
  split at one
  · rename_i nodes known
    simp only [Bool.and_eq_true, decide_eq_true_eq] at one
    exact ⟨nodes, known, one.1, one.2⟩
  · cases one

theorem tables_scheduled : TableScheduled domainRefreshNodes [eveningNode] ∧
    TableScheduled eventDatasetRefreshNodes [eveningNode] ∧
    TableScheduled macroDatasetRefreshNodes [eveningNode] ∧
    TableScheduled textDatasetRefreshNodes [textNode] := by
  unfold TableScheduled
  decide +kernel

/-- The cutoff of every dataset is a step function of the time asked about. -/
theorem dataset_cutoffs_step (dataset : String) :
    (∃ nodes,
      (nodesOf domainRefreshNodes [eveningNode] dataset).mapM refreshNode = .ok nodes ∧
      StepFunction nodes (domainVisibleCutoff dataset) (domainNextVisibleBoundary dataset)) ∧
    (∃ nodes,
      (nodesOf eventDatasetRefreshNodes [eveningNode] dataset).mapM refreshNode = .ok nodes ∧
      StepFunction nodes (eventDatasetVisibleCutoff dataset)
        (eventDatasetNextVisibleBoundary dataset)) ∧
    (∃ nodes,
      (nodesOf macroDatasetRefreshNodes [eveningNode] dataset).mapM refreshNode = .ok nodes ∧
      StepFunction nodes (macroDatasetVisibleCutoff dataset)
        (macroDatasetNextVisibleBoundary dataset)) ∧
    ∃ nodes,
      (nodesOf textDatasetRefreshNodes [textNode] dataset).mapM refreshNode = .ok nodes ∧
      StepFunction nodes (textDatasetVisibleCutoff dataset)
        (textDatasetNextVisibleBoundary dataset) := by
  have ⟨domains, events, macros, texts⟩ := tables_scheduled
  have ⟨_, domain⟩ := domains.scheduled dataset
  have ⟨_, event⟩ := events.scheduled dataset
  have ⟨_, macroDataset⟩ := macros.scheduled dataset
  have ⟨_, text⟩ := texts.scheduled dataset
  exact ⟨⟨_, domain.known, domain.stepFunction⟩, ⟨_, event.known, event.stepFunction⟩,
    ⟨_, macroDataset.known, macroDataset.stepFunction⟩, ⟨_, text.known, text.stepFunction⟩⟩

end AutoTrade
