import AutoTrade.Pipelines.SkillLibrary
import AutoTrade.Pipelines.Proofs.Skills

/-!
# What the sessions of an experiment mount

The snapshot is put in place by one rename and its record by a later one. Once both are there they
stay, and every session mounts them. A resolution that dies between the two leaves a snapshot that
no session mounts and none replaces: `lands` are the two renames as far as they have been done.
-/

namespace AutoTrade.SkillLibrary

open PyValue (lit)
open Faults
open Skills

variable {disk after : ExperimentDisk} {events : List (Event SnapshotOp)}
  {violation : PyStr → PyStr} {path : PyStr}

def lands (events : List (Event SnapshotOp)) : List SnapshotOp :=
  events.filterMap fun event =>
    match event with
    | .did .landSnapshot => some .landSnapshot
    | .did .landRecord => some .landRecord
    | _ => none

@[simp] theorem lands_append (events events' : List (Event SnapshotOp)) :
    lands (events ++ events') = lands events ++ lands events' := List.filterMap_append

theorem lands_silent (silent : events = [] ∨ events = [.unread]) : lands events = [] := by
  rcases silent with rfl | rfl <;> rfl

/-- What is neither of them. -/
def Aside : SnapshotOp → Prop
  | .landSnapshot => False
  | .landRecord => False
  | _ => True

/-- The library, the snapshot and the record are as they were. -/
structure Kept (disk after : ExperimentDisk) : Prop where
  library : after.library = disk.library
  snapshot : after.snapshot = disk.snapshot
  record : after.record = disk.record

theorem Kept.refl (disk : ExperimentDisk) : Kept disk disk := ⟨rfl, rfl, rfl⟩

theorem Kept.trans {mid : ExperimentDisk} (first : Kept disk mid) (second : Kept mid after) :
    Kept disk after :=
  ⟨second.library.trans first.library, second.snapshot.trans first.snapshot,
    second.record.trans first.record⟩

theorem kept_apply {op : SnapshotOp} (aside : Aside op) (disk : ExperimentDisk) :
    Kept disk (disk.apply op) := by
  cases op with
  | copyEntry name =>
    rw [ExperimentDisk.apply]
    split <;> exact ⟨rfl, rfl, rfl⟩
  | landSnapshot => exact aside.elim
  | landRecord => exact aside.elim
  | _ => exact ⟨rfl, rfl, rfl⟩

theorem kept_torn {op : SnapshotOp} (torn : disk.torn op after) : Kept disk after := by
  cases op with
  | copyEntry | lockStaging | removeStaging | copySource | lockMemory =>
    obtain ⟨_, rfl⟩ := torn
    exact ⟨rfl, rfl, rfl⟩
  | writeTemporary record =>
    obtain rfl := torn
    exact ⟨rfl, rfl, rfl⟩
  | _ => exact torn.elim

theorem aside_reaches {α : Type} {program : SnapshotProgram α} (uses : program.Uses Aside)
    (reaches : Reaches experimentDevice program disk events after) :
    Kept disk after ∧ lands events = [] := by
  have ⟨kept, each⟩ := reaches.invariant (P := Kept disk) uses
    (fun op aside s _ kept => kept.trans (kept_apply aside s))
    (fun op _ s t torn kept => kept.trans (kept_torn torn)) (.refl disk)
  refine ⟨kept, List.filterMap_eq_nil_iff.mpr fun event member => ?_⟩
  split <;> first | rfl | exact (each _ member).elim

theorem copyEntries_aside (entries : List FileName) : (copyEntries entries).Uses Aside := by
  induction entries with
  | nil => trivial
  | cons name entries ih => exact uses_bind (uses_performing trivial) fun _ => ih

theorem prepareSnapshot_aside (sources : Option (List FileName)) :
    (prepareSnapshot violation path sources).Uses Aside := by
  refine uses_bind (uses_performing trivial) fun _ => ?_
  have locked : lockStaging.Uses Aside := ⟨trivial, trivial, trivial⟩
  cases sources with
  | none => exact locked
  | some entries =>
    have staged : (stageSource entries).Uses Aside :=
      uses_bind (uses_performing trivial) fun _ => copyEntries_aside entries
    exact uses_bind staged fun _ => uses_bind locked fun _ =>
      uses_bind uses_reading fun _ => trivial

theorem cleanStaging_aside : cleanStaging.Uses Aside := by
  refine uses_bind uses_reading fun there => ?_
  cases there
  · trivial
  · exact ⟨trivial, trivial, trivial⟩

theorem Calm.of_append {before later : List (Event SnapshotOp)} (calm : Calm (before ++ later)) :
    Calm before ∧ Calm later :=
  ⟨fun op failed => calm op (List.mem_append_left _ failed),
    fun op failed => calm op (List.mem_append_right _ failed)⟩

/-- A snapshot of the entries of these names. -/
def Matching (violation : PyStr → PyStr) (snapshot : Snapshot) (names : List FileName) : Prop :=
  (names = [] ∧ snapshot.curated = none) ∨
    names ≠ [] ∧ ∃ tree, snapshot.curated = some tree ∧ TreeAllowed violation false tree ∧
      ∀ name, (tree.items.get? name).isSome ↔ name ∈ names

/-- A record of a snapshot. -/
def Recorded (violation : PyStr → PyStr) (snapshot : Snapshot) (record : SnapshotRecord) : Prop :=
  record.schemaVersion = skillLibrarySnapshotSchema ∧
    ∃ names, record.entries = names.map snapshotEntry ∧ Matching violation snapshot names

theorem copyEntries_ok {entries : List FileName} {tree : SkillsTree}
    (staged : disk.staging = some ⟨some tree⟩)
    (ends : Ends experimentDevice (copyEntries entries) disk events (.ok ()) after) :
    ∃ tree', after.staging = some ⟨some tree'⟩ ∧
      ∀ name, (tree'.items.get? name).isSome ↔ name ∈ entries ∨ (tree.items.get? name).isSome := by
  induction entries generalizing disk events tree with
  | nil =>
    obtain ⟨_, _, rfl⟩ := ends_done.mp ends
    exact ⟨tree, staged, fun name => by simp⟩
  | cons entry entries ih =>
    have ⟨_, mid, _, _, copying, rest, _⟩ := ends_bind_ok.mp ends
    obtain ⟨_, legal, rfl⟩ := ends_performing_ok.mp copying
    have there : disk.staged = some tree := by
      rw [ExperimentDisk.staged, staged]
      rfl
    have ⟨item, found⟩ := Option.isSome_iff_exists.mp (Bool.and_eq_true_iff.mp legal).1
    have copied : (disk.apply (.copyEntry entry)).staging = some ⟨some (tree.set entry item)⟩ := by
      simp only [ExperimentDisk.apply, there, found]
    have ⟨tree', last, its⟩ := ih copied rest
    refine ⟨tree', last, fun name => (its name).trans ?_⟩
    have more : ((tree.set entry item).items.get? name).isSome ↔
        name = entry ∨ (tree.items.get? name).isSome := by
      change ((tree.items.set entry item).get? name).isSome ↔ _
      rw [Dict.get?_set]
      by_cases same : entry = name
      · simp [same]
      · simp [same, Ne.symm same]
    rw [more, List.mem_cons]
    tauto

theorem lockStaging_ok (calm : Calm events)
    (ends : Ends experimentDevice lockStaging disk events (.ok ()) after) :
    after.staging = disk.staging.map Snapshot.lock := by
  cases ends with
  | did legal rest =>
    obtain ⟨_, _, rfl⟩ := ends_done.mp rest
    rfl
  | failed => exact absurd List.mem_cons_self (calm _)

variable {sources : Option (List FileName)}

theorem prepareSnapshot_ok (some' : sources ≠ some []) (calm : Calm events)
    (ends : Ends experimentDevice (prepareSnapshot violation path sources) disk events (.ok ())
      after) :
    ∃ snapshot, after.staging = some snapshot ∧
      Matching violation snapshot (sources.getD []) := by
  obtain ⟨_, mid, _, _, making, rest, rfl⟩ := ends_bind_ok.mp ends
  obtain ⟨_, _, rfl⟩ := ends_performing_ok.mp making
  have calm := calm.of_append.2
  cases sources with
  | none =>
    refine ⟨_, lockStaging_ok calm rest, .inl ⟨rfl, rfl⟩⟩
  | some entries =>
    obtain ⟨_, mid₁, _, _, staging, rest₁, rfl⟩ := ends_bind_ok.mp rest
    obtain ⟨_, mid₂, _, _, source, copying, _⟩ := ends_bind_ok.mp staging
    obtain ⟨_, _, rfl⟩ := ends_performing_ok.mp source
    have ⟨tree, copied, its⟩ := copyEntries_ok rfl copying
    obtain ⟨_, mid₃, _, _, locking, rest₂, rfl⟩ := ends_bind_ok.mp rest₁
    have locked := lockStaging_ok calm.of_append.2.of_append.1 locking
    obtain ⟨_, mid₄, _, _, checking, last, _⟩ := ends_bind_ok.mp rest₂
    obtain ⟨rfl, _, checked⟩ := ends_reading_ok.mp checking
    obtain ⟨_, _, rfl⟩ := ends_done.mp last
    rw [copied] at locked
    have there : after.staged = some (tree.chmod false) := by
      rw [ExperimentDisk.staged, locked]
      rfl
    rw [there] at checked
    obtain ⟨tree', same, allowed, _⟩ := validateSkillsTree_eq_ok.mp checked
    cases same
    refine ⟨_, locked, .inr ⟨fun none => some' (congrArg some none), _, rfl, allowed, fun name => ?_⟩⟩
    change ((tree.items.mapValues _).get? name).isSome ↔ name ∈ entries
    rw [Dict.get?_mapValues, Option.isSome_map, its]
    simp [SkillsTree.empty]

/-- What is there after the first resolution, by the renames that have been done. -/
def Resolved (violation : PyStr → PyStr) (disk : ExperimentDisk)
    (events : List (Event SnapshotOp)) (after : ExperimentDisk) : Prop :=
  after.library = disk.library ∧
    ((lands events = [] ∧ after.snapshot = none ∧ after.record = none) ∨
    (lands events = [.landSnapshot] ∧ after.snapshot.isSome ∧ after.record = none) ∨
    lands events = [.landSnapshot, .landRecord] ∧ ∃ snapshot record,
      after.snapshot = some snapshot ∧ after.record = some record ∧
        Recorded violation snapshot record)

theorem Resolved.before (kept : Kept disk after) (quiet : lands events = [])
    (unsaved : disk.snapshot = none) (unrecorded : disk.record = none) :
    Resolved violation disk events after :=
  ⟨kept.library, .inl ⟨quiet, kept.snapshot.trans unsaved, kept.record.trans unrecorded⟩⟩

theorem stageSnapshot_reaches (unsaved : disk.snapshot = none) (unrecorded : disk.record = none)
    (reaches : Reaches experimentDevice (stageSnapshot violation path sources) disk events after) :
    after.library = disk.library ∧ after.record = none ∧
      (lands events = [] ∧ after.snapshot = none ∨
        lands events = [.landSnapshot] ∧ after.snapshot.isSome) := by
  rcases reaches_bind.mp reaches with preparing | ⟨_, mid, _, _, prepared, landing, rfl⟩
  · have ⟨kept, quiet⟩ := aside_reaches (prepareSnapshot_aside sources) preparing
    exact ⟨kept.library, kept.record.trans unrecorded, .inl ⟨quiet, kept.snapshot.trans unsaved⟩⟩
  · have ⟨kept, quiet⟩ := aside_reaches (prepareSnapshot_aside sources) (reaches_of_ends prepared)
    have still := kept.record.trans unrecorded
    have none' := kept.snapshot.trans unsaved
    rw [lands_append, quiet, List.nil_append]
    rcases reaches_performing.mp landing with
      ⟨rfl, rfl⟩ | ⟨rfl, legal, rfl⟩ | ⟨rfl, left⟩ | ⟨rfl, left⟩
    · exact ⟨kept.library, still, .inl ⟨rfl, none'⟩⟩
    · exact ⟨kept.library, still, .inr ⟨rfl, (Bool.and_eq_true_iff.mp legal).1⟩⟩
    · obtain rfl := left.resolve_right id
      exact ⟨kept.library, still, .inl ⟨rfl, none'⟩⟩
    · exact left.elim

theorem stageSnapshot_ok (some' : sources ≠ some []) (calm : Calm events)
    (ends : Ends experimentDevice (stageSnapshot violation path sources) disk events (.ok ())
      after) :
    lands events = [.landSnapshot] ∧
      Kept { disk with snapshot := after.snapshot } after ∧ ∃ snapshot,
        after.snapshot = some snapshot ∧ Matching violation snapshot (sources.getD []) := by
  obtain ⟨_, mid, _, _, prepared, landing, rfl⟩ := ends_bind_ok.mp ends
  have ⟨kept, quiet⟩ := aside_reaches (prepareSnapshot_aside sources) (reaches_of_ends prepared)
  have ⟨snapshot, staged, its⟩ := prepareSnapshot_ok some' calm.of_append.1 prepared
  obtain ⟨rfl, _, rfl⟩ := ends_performing_ok.mp landing
  rw [lands_append, quiet]
  exact ⟨rfl, ⟨kept.library, rfl, kept.record⟩, snapshot, staged, its⟩

variable {record : SnapshotRecord}

theorem writeRecord_reaches
    (reaches : Reaches experimentDevice (writeRecord record) disk events after) :
    after.library = disk.library ∧ after.snapshot = disk.snapshot ∧
      (lands events = [] ∧ after.record = disk.record ∨
        lands events = [.landRecord] ∧ after.record = some record) := by
  have body : ∀ {events after}, Reaches experimentDevice (do
      act (.writeTemporary record)
      act .landRecord) disk events after →
      after.library = disk.library ∧ after.snapshot = disk.snapshot ∧
        (lands events = [] ∧ after.record = disk.record ∨
          lands events = [.landRecord] ∧ after.record = some record) := by
    intro events after reaches
    have writes : (act (.writeTemporary record)).Uses Aside := ⟨trivial, trivial, trivial⟩
    rcases reaches_bind.mp reaches with writing | ⟨_, mid, _, _, wrote, landing, rfl⟩
    · have ⟨kept, quiet⟩ := aside_reaches writes writing
      exact ⟨kept.library, kept.snapshot, .inl ⟨quiet, kept.record⟩⟩
    · obtain ⟨rfl, _, rfl⟩ := ends_performing_ok.mp wrote
      rcases reaches_performing.mp landing with
        ⟨rfl, rfl⟩ | ⟨rfl, _, rfl⟩ | ⟨rfl, left⟩ | ⟨rfl, left⟩
      · exact ⟨rfl, rfl, .inl ⟨rfl, rfl⟩⟩
      · exact ⟨rfl, rfl, .inr ⟨rfl, rfl⟩⟩
      · obtain rfl := left.resolve_right id
        exact ⟨rfl, rfl, .inl ⟨rfl, rfl⟩⟩
      · exact left.elim
  rcases reaches_andFinally.mp reaches with writing | ⟨_, mid, _, _, wrote, removing, rfl⟩
  · exact body writing
  · have removes : (act .removeTemporary).Uses Aside := ⟨trivial, trivial, trivial⟩
    have ⟨kept, quiet⟩ := aside_reaches removes removing
    rw [lands_append, quiet, List.append_nil, kept.library, kept.snapshot, kept.record]
    exact body (reaches_of_ends wrote)

variable {library : Option SkillsTree}

theorem frozenSources_ne {mode : SkillLibraryMode}
    (ok : frozenSources violation path mode library = .ok sources) : sources ≠ some [] := by
  cases mode with
  | none' =>
    cases ok
    exact nofun
  | curated =>
    cases library with
    | none =>
      cases ok
      exact nofun
    | some library =>
      have ⟨entries, _, same⟩ := bind_eq_ok.mp ok
      rw [← pure_eq_ok.mp same]
      split
      · exact nofun
      · rename_i some'
        exact fun none => some' (Option.some.inj none)

variable {mode : SkillLibraryMode} {createdFrom snapshotId createdAt : PyStr}

theorem create_reaches (calm : Calm events) (unsaved : disk.snapshot = none)
    (unrecorded : disk.record = none)
    (reaches : Reaches experimentDevice
      (createSkillLibrarySnapshot violation path mode createdFrom snapshotId createdAt) disk events
      after) : Resolved violation disk events after := by
  rcases reaches_bind.mp reaches with asking | ⟨_, _, _, _, asked, rest, rfl⟩
  · obtain ⟨rfl, silent⟩ := reaches_reading.mp asking
    exact .before (.refl _) (lands_silent silent) unsaved unrecorded
  obtain ⟨rfl, rfl, _⟩ := ends_reading_ok.mp asked
  rw [List.nil_append] at calm ⊢
  rcases reaches_bind.mp rest with asking | ⟨sources, here, _, _, asked', rest₁, rfl⟩
  · obtain ⟨rfl, silent⟩ := reaches_reading.mp asking
    exact .before (.refl _) (lands_silent silent) unsaved unrecorded
  obtain ⟨rfl, rfl, frozen⟩ := ends_reading_ok.mp asked'
  rw [List.nil_append] at calm ⊢
  have some' := frozenSources_ne frozen
  have staging : ∀ {events after}, Reaches experimentDevice
      ((stageSnapshot violation path sources).andFinally cleanStaging) here events after →
      Resolved violation here events after := by
    intro events after reaches
    rcases reaches_andFinally.mp reaches with stage | ⟨_, mid, _, _, stage, cleaning, rfl⟩
    · have ⟨library, record, which⟩ := stageSnapshot_reaches unsaved unrecorded stage
      refine ⟨library, which.imp (fun ⟨quiet, absent⟩ => ⟨quiet, absent, record⟩) ?_⟩
      exact fun ⟨landed, saved⟩ => .inl ⟨landed, saved, record⟩
    · have ⟨library, record, which⟩ :=
        stageSnapshot_reaches unsaved unrecorded (reaches_of_ends stage)
      have ⟨kept, quiet⟩ := aside_reaches cleanStaging_aside cleaning
      rw [Resolved, lands_append, quiet, List.append_nil, kept.library, kept.snapshot, kept.record]
      refine ⟨library, which.imp (fun ⟨quiet, absent⟩ => ⟨quiet, absent, record⟩) ?_⟩
      exact fun ⟨landed, saved⟩ => .inl ⟨landed, saved, record⟩
  rcases reaches_bind.mp rest₁ with staging' | ⟨_, mid, _, _, staged, rest₂, rfl⟩
  · exact staging staging'
  obtain ⟨_, mid₁, before, during, stage, rfl, ⟨rfl, cleaned⟩ | ⟨_, impossible, _⟩⟩ :=
    ends_andFinally.mp staged
  · have ⟨landed, kept, snapshot, there, matching⟩ :=
      stageSnapshot_ok some' calm.of_append.1.of_append.1 stage
    have ⟨kept', quiet⟩ := aside_reaches cleanStaging_aside (reaches_of_ends cleaned)
    have library : mid.library = here.library := kept'.library.trans kept.library
    have there' : mid.snapshot = some snapshot := kept'.snapshot.trans there
    have record : mid.record = none := (kept'.record.trans kept.record).trans unrecorded
    have writing : ∀ {events after}, Reaches experimentDevice (writeRecord ⟨
        skillLibrarySnapshotSchema, snapshotId, mode, createdAt, createdFrom,
        (sources.getD []).map snapshotEntry⟩) mid events after →
        Resolved violation here (before ++ during ++ events) after := by
      intro events after reaches
      have ⟨library', still, which⟩ := writeRecord_reaches reaches
      have still := still.trans there'
      rw [Resolved, lands_append, lands_append, landed, quiet, List.append_nil]
      refine ⟨library'.trans library, .inr ?_⟩
      rcases which with ⟨silent, unwritten⟩ | ⟨wrote, its⟩
      · rw [silent, still]
        exact .inl ⟨rfl, rfl, unwritten.trans record⟩
      · rw [wrote]
        exact .inr ⟨rfl, snapshot, _, still, its, rfl, _, rfl, matching⟩
    rcases reaches_bind.mp rest₂ with written | ⟨_, _, _, _, written, last, rfl⟩
    · exact writing written
    · obtain ⟨rfl, rfl⟩ := reaches_done.mp last
      rw [List.append_nil]
      exact writing (reaches_of_ends written)
  · exact nomatch impossible

/-- From nothing a snapshot is put in place, or not yet; one that is there stays. -/
def Resolves (violation : PyStr → PyStr) (disk : ExperimentDisk)
    (events : List (Event SnapshotOp)) (after : ExperimentDisk) : Prop :=
  (disk.snapshot = none → disk.record = none → Resolved violation disk events after) ∧
    (disk.snapshot.isSome → Kept disk after ∧ lands events = [])

theorem Resolves.silent (silent : events = [] ∨ events = [.unread]) :
    Resolves violation disk events disk :=
  ⟨.before (.refl disk) (lands_silent silent), fun _ => ⟨.refl disk, lands_silent silent⟩⟩

theorem Resolves.later {mid : ExperimentDisk} {events' : List (Event SnapshotOp)}
    (first : Resolves violation disk events mid) (kept : Kept mid after)
    (quiet : lands events' = []) : Resolves violation disk (events ++ events') after := by
  rw [Resolves, Resolved, lands_append, quiet, List.append_nil, kept.library, kept.snapshot,
    kept.record]
  exact ⟨first.1, fun saved => ⟨(first.2 saved).1.trans kept, (first.2 saved).2⟩⟩

theorem create_resolves (calm : Calm events)
    (reaches : Reaches experimentDevice
      (createSkillLibrarySnapshot violation path mode createdFrom snapshotId createdAt) disk events
      after) : Resolves violation disk events after := by
  refine ⟨fun unsaved unrecorded => create_reaches calm unsaved unrecorded reaches, fun saved => ?_⟩
  rcases reaches_bind.mp reaches with asking | ⟨_, _, _, _, asked, _⟩
  · obtain ⟨rfl, silent⟩ := reaches_reading.mp asking
    exact ⟨.refl _, lands_silent silent⟩
  · have ⟨_, _, passed⟩ := ends_reading_ok.mp asked
    rw [saved, Bool.or_true, if_pos rfl] at passed
    exact nomatch passed

theorem ensure_resolves (calm : Calm events)
    (reaches : Reaches experimentDevice
      (ensureSkillLibrarySnapshot violation path mode snapshotId createdAt) disk events after) :
    Resolves violation disk events after := by
  rcases reaches_bind.mp reaches with asking | ⟨existing, mid, _, _, asked, rest, rfl⟩
  · obtain ⟨rfl, silent⟩ := reaches_reading.mp asking
    exact .silent silent
  · obtain ⟨rfl, rfl, _⟩ := ends_reading_ok.mp asked
    cases existing with
    | none => exact create_resolves calm rest
    | some record =>
      obtain ⟨rfl, rfl⟩ := reaches_done.mp rest
      exact .silent (.inl rfl)

theorem install_aside : (installSkillLibrary violation path).Uses Aside := by
  refine uses_bind uses_reading fun existing => ?_
  cases existing with
  | none => trivial
  | some record =>
    refine uses_bind uses_reading fun _ => uses_bind (uses_ofExcept _) fun mounted => ?_
    split
    · trivial
    · refine uses_bind (uses_performing trivial) fun _ => ?_
      refine uses_bind (uses_performing trivial) fun _ => ?_
      have locked : lockMemory.Uses Aside := ⟨trivial, trivial, trivial⟩
      exact uses_bind locked fun _ => uses_bind uses_reading fun _ => trivial

theorem mount_resolves (calm : Calm events)
    (reaches : Reaches experimentDevice (mountLibrary violation path mode snapshotId createdAt) disk
      events after) : Resolves violation disk events after := by
  rcases reaches_bind.mp reaches with ensuring | ⟨_, mid, _, _, ensured, installing, rfl⟩
  · exact ensure_resolves calm ensuring
  · have ⟨kept, quiet⟩ := aside_reaches install_aside installing
    exact (ensure_resolves calm.of_append.1 (reaches_of_ends ensured)).later kept quiet

/-- What a session has of a snapshot. -/
def memoryOf (snapshot : Snapshot) (names : List FileName) : Option Snapshot :=
  if names = [] then none else some snapshot.lock

variable {names : List FileName}

theorem snapshotMemorySources_eq (entries : record.entries = names.map snapshotEntry)
    (named : ∀ name ∈ names, validateSkillName violation name.val = .ok name) :
    snapshotMemorySources violation record = .ok (sortedBy Subtype.val names) := by
  refine bind_eq_ok.mpr ⟨names, ?_, rfl⟩
  rw [entries, mapM_eq_ok, List.forall₂_map_left_iff]
  refine List.forall₂_same.mpr fun name member => ?_
  exact bind_eq_ok.mpr ⟨name, named name member, rfl⟩

variable {snapshot : Snapshot}

theorem matching_named (matching : Matching violation snapshot names) :
    ∀ name ∈ names, validateSkillName violation name.val = .ok name := by
  intro name member
  rcases matching with ⟨rfl, _⟩ | ⟨_, tree, _, allowed, its⟩
  · exact nomatch member
  · have ⟨item, found⟩ := Option.isSome_iff_exists.mp ((its name).mpr member)
    exact (allowed.items name item found).1.2

theorem install_recorded (there : disk.snapshot = some snapshot)
    (saved : disk.record = some record)
    (schema : record.schemaVersion = skillLibrarySnapshotSchema)
    (entries : record.entries = names.map snapshotEntry)
    (matching : Matching violation snapshot names) (new : disk.memory = none) :
    (installSkillLibrary violation path).carryOut experimentDevice disk =
      (.ok (sortedBy Subtype.val names), { disk with memory := memoryOf snapshot names }) := by
  have read : readSkillLibrarySnapshot disk = .ok (some record) := by
    rw [readSkillLibrarySnapshot, saved]
    exact if_neg (not_not.mpr schema)
  refine (carryOut_bind_ok (carryOut_reading.trans (by rw [read]))).trans ?_
  have spare : (if disk.memory.isSome then
      .error (.fileExists (lit "workspace memory directory already exists")) else .ok () :
      Except Failure Unit) = .ok () := by
    rw [new]
    rfl
  refine (carryOut_bind_ok (carryOut_reading.trans (by rw [spare]))).trans ?_
  rw [snapshotMemorySources_eq entries (matching_named matching)]
  refine (carryOut_bind_ok rfl).trans ?_
  have none' : sortedBy Subtype.val names = [] ↔ names = [] := by
    have perm := sortedBy_perm Subtype.val names
    exact ⟨fun same => (same ▸ perm).nil_eq.symm, fun same => by rw [same]; rfl⟩
  rw [memoryOf]
  rcases matching with ⟨rfl, _⟩ | ⟨some', tree, its, allowed, _⟩
  · change (_, disk) = _
    rw [if_pos rfl, ← new]
    rfl
  · rw [if_neg (none'.not.mpr some'), if_neg some']
    have sourced : disk.snapshot.bind Snapshot.curated = some tree := by
      rw [there]
      exact its
    have free : experimentDevice.legal disk .makeMemory = true := by
      change disk.memory.isNone = true
      rw [new]
      rfl
    refine (carryOut_bind_ok (carryOut_performing free)).trans ?_
    refine (carryOut_bind_ok (carryOut_performing ?_)).trans ?_
    · change ((disk.snapshot.bind Snapshot.curated).isSome && true) = true
      rw [sourced]
      rfl
    · have locked : lockMemory.carryOut experimentDevice
          ((disk.apply .makeMemory).apply .copySource) =
          (.ok (), { disk with memory := some snapshot.lock }) := by
        change (Except.ok (), { disk with
          memory := some (Snapshot.lock ⟨disk.snapshot.bind Snapshot.curated⟩) }) = _
        rw [sourced, ← its]
      refine (carryOut_bind_ok locked).trans ?_
      have checked : validateSkillsTree violation false path (snapshot.lock.curated) =
          .ok (tree.chmod false).stats := by
        refine validateSkillsTree_eq_ok.mpr ⟨tree.chmod false, ?_, allowed.chmod, rfl⟩
        rw [Snapshot.lock, its]
        rfl
      have read' : (reading fun disk => validateSkillsTree violation false path
          (disk.memory.bind Snapshot.curated)).carryOut experimentDevice
            { disk with memory := some snapshot.lock } =
          (.ok (tree.chmod false).stats, { disk with memory := some snapshot.lock }) :=
        carryOut_reading.trans (Prod.ext checked rfl)
      exact (carryOut_bind_ok read').trans rfl

theorem copyEntries_carryOut {library tree : SkillsTree} {entries : List FileName}
    (here : disk.library = some library) (staged : disk.staging = some ⟨some tree⟩)
    (distinct : entries.Nodup) (present : ∀ name ∈ entries, (library.items.get? name).isSome)
    (spare : ∀ name ∈ entries, tree.items.get? name = none) :
    ∃ tree', (copyEntries entries).carryOut experimentDevice disk =
        (.ok (), { disk with staging := some ⟨some tree'⟩ }) ∧
      tree'.linked = tree.linked ∧ ∀ name, tree'.items.get? name =
        if name ∈ entries then library.items.get? name else tree.items.get? name := by
  induction entries generalizing disk tree with
  | nil =>
    refine ⟨tree, ?_, rfl, fun name => by simp⟩
    rw [← staged]
    rfl
  | cons entry entries ih =>
    have ⟨item, found⟩ := Option.isSome_iff_exists.mp (present entry List.mem_cons_self)
    have there : disk.staged = some tree := by
      rw [ExperimentDisk.staged, staged]
      rfl
    have its : disk.entry entry = some item := by
      rw [ExperimentDisk.entry, here]
      exact found
    have legal : experimentDevice.legal disk (.copyEntry entry) = true := by
      change ((disk.entry entry).isSome &&
        (disk.staged.map fun tree => (tree.items.get? entry).isNone).getD false) = true
      rw [its, there]
      simp [spare entry List.mem_cons_self]
    have copied : disk.apply (.copyEntry entry) =
        { disk with staging := some ⟨some (tree.set entry item)⟩ } := by
      simp only [ExperimentDisk.apply, there, its]
    have get : ∀ name, (tree.set entry item).items.get? name =
        if entry = name then some item else tree.items.get? name :=
      fun name => Dict.get?_set _ _ _ _
    have ⟨absent, distinct'⟩ := List.nodup_cons.mp distinct
    have ⟨tree', rest, linked, each⟩ := @ih (disk.apply (.copyEntry entry)) (tree.set entry item)
      (by rw [copied]; exact here) (by rw [copied]) distinct'
      (fun name member => present name (List.mem_cons_of_mem _ member)) (fun name member => by
        have apart : entry ≠ name := fun same => absent (same ▸ member)
        rw [get, if_neg apart]
        exact spare name (List.mem_cons_of_mem _ member))
    refine ⟨tree', ?_, linked, fun name => ?_⟩
    · refine (carryOut_bind_ok (carryOut_performing legal)).trans (rest.trans ?_)
      rw [copied]
    · rw [each, get]
      by_cases same : entry = name
      · subst same
        simp [absent, found]
      · simp [same, Ne.symm same]

/-- A source that is frozen has the entries of a library that passes. -/
def Sourced (violation : PyStr → PyStr) (library : Option SkillsTree)
    (sources : Option (List FileName)) : Prop :=
  ∀ entries, sources = some entries → entries ≠ [] ∧ ∃ tree, library = some tree ∧
    TreeAllowed violation false tree ∧ entries.Nodup ∧
      ∀ name, name ∈ entries ↔ (tree.items.get? name).isSome

variable (mode) in
theorem frozenSources_valid
    (valid : ∀ tree, library = some tree →
      ∃ stats, validateSkillsTree violation false path (some tree) = .ok stats) :
    ∃ sources, frozenSources violation path mode library = .ok sources ∧
      Sourced violation library sources := by
  cases mode with
  | none' => exact ⟨none, rfl, nofun⟩
  | curated =>
    cases library with
    | none => exact ⟨none, rfl, nofun⟩
    | some tree =>
      have ⟨stats, ok⟩ := valid tree rfl
      obtain ⟨_, same, allowed, _⟩ := validateSkillsTree_eq_ok.mp ok
      cases same
      have perm := sortedBy_perm Subtype.val tree.items.keys
      refine ⟨_, bind_eq_ok.mpr ⟨_, bind_eq_ok.mpr ⟨stats, ok, rfl⟩, rfl⟩, fun entries found => ?_⟩
      split at found
      · exact nomatch found
      · rename_i some'
        cases found
        refine ⟨some', tree, rfl, allowed, perm.nodup_iff.mpr tree.items.nodup, fun name => ?_⟩
        rw [perm.mem_iff, Dict.mem_keys_iff, Option.isSome_iff_exists]

variable (path) in
theorem prepareSnapshot_carryOut (sourced : Sourced violation disk.library sources)
    (clear : disk.staging = none) :
    ∃ snapshot, (prepareSnapshot violation path sources).carryOut experimentDevice disk =
        (.ok (), { disk with staging := some snapshot }) ∧
      Matching violation snapshot (sources.getD []) := by
  have free : experimentDevice.legal disk .makeStaging = true := by
    change disk.staging.isNone = true
    rw [clear]
    rfl
  have made : (act .makeStaging).carryOut experimentDevice disk =
      (.ok (), disk.apply .makeStaging) := carryOut_performing free
  cases sources with
  | none => exact ⟨⟨none⟩, (carryOut_bind_ok made).trans rfl, .inl ⟨rfl, rfl⟩⟩
  | some entries =>
    have ⟨some', library, here, allowed, distinct, its⟩ := sourced entries rfl
    have ⟨tree, copied, linked, each⟩ := @copyEntries_carryOut
      ((disk.apply .makeStaging).apply .makeSource) library .empty entries here rfl distinct
      (fun name member => (its name).mp member) (fun _ _ => rfl)
    have all : ∀ name, tree.items.get? name = library.items.get? name := by
      intro name
      rw [each]
      split
      · rfl
      · rename_i absent
        have gone : library.items.get? name = none := by
          simpa using (its name).not.mp absent
        rw [gone]
        rfl
    have staged : TreeAllowed violation false (tree.chmod false) :=
      (allowed.congr (linked.trans allowed.regular.symm) nofun all (stats_congr all)).chmod
    refine ⟨⟨some (tree.chmod false)⟩, ?_, .inr ⟨some', _, rfl, staged, fun name => ?_⟩⟩
    · refine (carryOut_bind_ok made).trans ?_
      have sourceMade : (stageSource entries).carryOut experimentDevice (disk.apply .makeStaging) =
          (.ok (), { disk with staging := some ⟨some tree⟩ }) :=
        (carryOut_bind_ok (carryOut_performing rfl)).trans copied
      refine (carryOut_bind_ok sourceMade).trans ?_
      have locked : lockStaging.carryOut experimentDevice
          { disk with staging := some ⟨some tree⟩ } =
          (.ok (), { disk with staging := some ⟨some (tree.chmod false)⟩ }) := rfl
      refine (carryOut_bind_ok locked).trans ?_
      have checked : validateSkillsTree violation false path (some (tree.chmod false)) =
          .ok (tree.chmod false).stats := validateSkillsTree_eq_ok.mpr ⟨_, rfl, staged, rfl⟩
      have read : (reading fun disk =>
          validateSkillsTree violation false path disk.staged).carryOut experimentDevice
            { disk with staging := some ⟨some (tree.chmod false)⟩ } =
          (.ok (tree.chmod false).stats,
            { disk with staging := some ⟨some (tree.chmod false)⟩ }) :=
        carryOut_reading.trans (Prod.ext checked rfl)
      exact (carryOut_bind_ok read).trans rfl
    · change ((tree.items.mapValues _).get? name).isSome ↔ name ∈ entries
      rw [Dict.get?_mapValues, Option.isSome_map, all]
      exact (its name).symm

variable (createdFrom snapshotId createdAt) in
theorem create_carryOut (frozen : frozenSources violation path mode disk.library = .ok sources)
    (sourced : Sourced violation disk.library sources) (unsaved : disk.snapshot = none)
    (unrecorded : disk.record = none) (clear : disk.staging = none)
    (clear' : disk.temporary = none) :
    ∃ snapshot record,
      (createSkillLibrarySnapshot violation path mode createdFrom snapshotId createdAt).carryOut
        experimentDevice disk =
          (.ok record, { disk with snapshot := some snapshot, record := some record }) ∧
      record.schemaVersion = skillLibrarySnapshotSchema ∧
      record.entries = (sources.getD []).map snapshotEntry ∧
      Matching violation snapshot (sources.getD []) := by
  have ⟨snapshot, prepared, matching⟩ :=
    prepareSnapshot_carryOut path sourced clear
  refine ⟨snapshot, ⟨skillLibrarySnapshotSchema, snapshotId, mode, createdAt, createdFrom,
    (sources.getD []).map snapshotEntry⟩, ?_, rfl, rfl, matching⟩
  have spare : (if disk.record.isSome || disk.snapshot.isSome then .error alreadyExists
      else .ok () : Except Failure Unit) = .ok () := by
    rw [unrecorded, unsaved]
    rfl
  refine (carryOut_bind_ok (carryOut_reading.trans (by rw [spare]))).trans ?_
  refine (carryOut_bind_ok (carryOut_reading.trans (by rw [frozen]))).trans ?_
  have staged : (stageSnapshot violation path sources).carryOut experimentDevice disk =
      (.ok (), { disk with snapshot := some snapshot }) := by
    refine (carryOut_bind_ok prepared).trans ((carryOut_performing ?_).trans ?_)
    · change (true && disk.snapshot.isNone) = true
      rw [unsaved]
      rfl
    · rw [clear]
      rfl
  have cleaned : cleanStaging.carryOut experimentDevice { disk with snapshot := some snapshot } =
      (.ok (), { disk with snapshot := some snapshot }) := by
    refine (carryOut_bind_ok carryOut_reading).trans ?_
    rw [clear]
    rfl
  refine (carryOut_bind_ok (carryOut_andFinally staged cleaned)).trans ?_
  have written : ∀ record, (writeRecord record).carryOut experimentDevice
      { disk with snapshot := some snapshot } =
      (.ok (), { disk with snapshot := some snapshot, record := some record }) := by
    intro record
    refine carryOut_andFinally (t := { disk with
      snapshot := some snapshot, record := some record, temporary := none }) ?_ ?_
    · refine (carryOut_bind_ok (carryOut_performing ?_)).trans rfl
      change disk.temporary.isNone = true
      rw [clear']
      rfl
    · refine (carryOut_performing rfl).trans ?_
      rw [clear']
      rfl
  exact (carryOut_bind_ok (written _)).trans rfl

theorem mount_recorded (there : disk.snapshot = some snapshot) (saved : disk.record = some record)
    (schema : record.schemaVersion = skillLibrarySnapshotSchema)
    (entries : record.entries = names.map snapshotEntry)
    (matching : Matching violation snapshot names) (new : disk.memory = none) :
    (mountLibrary violation path mode snapshotId createdAt).carryOut experimentDevice disk =
      (.ok (sortedBy Subtype.val names), { disk with memory := memoryOf snapshot names }) := by
  have read : readSkillLibrarySnapshot disk = .ok (some record) := by
    rw [readSkillLibrarySnapshot, saved]
    exact if_neg (not_not.mpr schema)
  have ensured : (ensureSkillLibrarySnapshot violation path mode snapshotId createdAt).carryOut
      experimentDevice disk = (.ok record, disk) :=
    (carryOut_bind_ok (carryOut_reading.trans (by rw [read]))).trans rfl
  exact (carryOut_bind_ok ensured).trans (install_recorded there saved schema entries matching new)

variable (violation path mode snapshotId createdAt) in
theorem mount_unrecorded (saved : disk.snapshot.isSome) (unrecorded : disk.record = none) :
    (mountLibrary violation path mode snapshotId createdAt).carryOut experimentDevice disk =
      (.error alreadyExists, disk) := by
  have read : readSkillLibrarySnapshot disk = .ok none := by
    rw [readSkillLibrarySnapshot, unrecorded]
  refine carryOut_bind_error ?_
  refine (carryOut_bind_ok (carryOut_reading.trans (by rw [read]))).trans ?_
  have refused : (if disk.record.isSome || disk.snapshot.isSome then .error alreadyExists
      else .ok () : Except Failure Unit) = .error alreadyExists := by
    rw [saved, Bool.or_true]
    rfl
  exact carryOut_bind_error (carryOut_reading.trans (by rw [refused]))

variable (mode snapshotId createdAt) in
theorem mount_first (unsaved : disk.snapshot = none) (unrecorded : disk.record = none)
    (clear : disk.staging = none) (clear' : disk.temporary = none) (new : disk.memory = none)
    (valid : ∀ library, disk.library = some library →
      ∃ stats, validateSkillsTree violation false path (some library) = .ok stats) :
    ∃ snapshot record names,
      (mountLibrary violation path mode snapshotId createdAt).carryOut experimentDevice disk =
        (.ok (sortedBy Subtype.val names), { disk with
          snapshot := some snapshot, record := some record, memory := memoryOf snapshot names }) ∧
      record.schemaVersion = skillLibrarySnapshotSchema ∧
      record.entries = names.map snapshotEntry ∧ Matching violation snapshot names := by
  have ⟨sources, frozen, sourced⟩ := frozenSources_valid mode valid
  have ⟨snapshot, record, created, schema, entries, matching⟩ :=
    create_carryOut (lit "first_session") snapshotId createdAt frozen sourced unsaved unrecorded
      clear clear'
  refine ⟨snapshot, record, sources.getD [], ?_, schema, entries, matching⟩
  have read : readSkillLibrarySnapshot disk = .ok none := by
    rw [readSkillLibrarySnapshot, unrecorded]
  have ensured : (ensureSkillLibrarySnapshot violation path mode snapshotId createdAt).carryOut
      experimentDevice disk = (.ok record, { disk with
        snapshot := some snapshot, record := some record }) := by
    refine (carryOut_bind_ok (carryOut_reading.trans (by rw [read]))).trans ?_
    exact created
  exact (carryOut_bind_ok ensured).trans (install_recorded rfl rfl schema entries matching new)

/-- Every session mounts the library, all of them the same one, and what is recorded is there. -/
structure Frozen (happenings : List Happening) (disk : ExperimentDisk) : Prop where
  succeeds : ∀ mounted memory, .session mounted memory ∈ happenings → ∃ names, mounted = .ok names
  same : ∀ {mounted mounted' memory memory'}, .session mounted memory ∈ happenings →
    .session mounted' memory' ∈ happenings → mounted = mounted' ∧ memory = memory'
  recorded : ∀ record entry, disk.record = some record → entry ∈ record.entries →
    ∃ name tree, entry = snapshotEntry name ∧ disk.snapshot.bind Snapshot.curated = some tree ∧
      (tree.items.get? name).isSome

/-- A process that has died between the two renames. -/
def Torn (happening : Happening) : Prop :=
  ∃ events, happening = .cutOff events ∧ lands events = [.landSnapshot]

/-- How an experiment may stand after all that has happened to it. -/
inductive Standing (violation : PyStr → PyStr) (happenings : List Happening)
    (disk : ExperimentDisk) : Prop where
  | unresolved (unsaved : disk.snapshot = none) (unrecorded : disk.record = none)
      (whole : ∀ happening ∈ happenings, ¬ Torn happening)
      (alone : ∀ mounted memory, .session mounted memory ∉ happenings)
  | stuck (saved : disk.snapshot.isSome) (unrecorded : disk.record = none)
      {before after : List Happening} {torn : Happening}
      (order : happenings = before ++ torn :: after) (between : Torn torn)
      (alone : ∀ mounted memory, .session mounted memory ∉ before)
      (refused : ∀ mounted memory, .session mounted memory ∈ after →
        mounted = .error alreadyExists)
  | settled {snapshot : Snapshot} {record : SnapshotRecord} {names : List FileName}
      (saved : disk.snapshot = some snapshot) (recorded : disk.record = some record)
      (schema : record.schemaVersion = skillLibrarySnapshotSchema)
      (entries : record.entries = names.map snapshotEntry)
      (matching : Matching violation snapshot names)
      (whole : ∀ happening ∈ happenings, ¬ Torn happening)
      (mounts : ∀ mounted memory, .session mounted memory ∈ happenings →
        mounted = .ok (sortedBy Subtype.val names) ∧ memory = memoryOf snapshot names)

variable {happenings : List Happening}

theorem not_torn_change : ¬ Torn .change := fun ⟨_, same, _⟩ => nomatch same

variable {mounted : Except Failure (List FileName)} {memory : Option Snapshot}

theorem not_torn_session :
    ¬ Torn (.session mounted memory) := fun ⟨_, same, _⟩ => nomatch same

variable {happening : Happening}

theorem whole_concat (whole : ∀ before ∈ happenings, ¬ Torn before) (last : ¬ Torn happening) :
    ∀ h ∈ happenings ++ [happening], ¬ Torn h := by
  intro h member
  rcases List.mem_append.mp member with before | same
  · exact whole h before
  · rwa [List.mem_singleton.mp same]

theorem mem_session_concat (other : ∀ mounted memory, happening ≠ .session mounted memory) :
    .session mounted memory ∈ happenings ++ [happening] ↔ .session mounted memory ∈ happenings := by
  rw [List.mem_append, List.mem_singleton]
  exact or_iff_left fun same => other _ _ same.symm

theorem Standing.kept (standing : Standing violation happenings disk)
    (snapshot : after.snapshot = disk.snapshot) (record : after.record = disk.record)
    (whole' : ¬ Torn happening) (other : ∀ mounted memory, happening ≠ .session mounted memory) :
    Standing violation (happenings ++ [happening]) after := by
  cases standing with
  | unresolved unsaved unrecorded whole alone =>
    refine .unresolved (snapshot.trans unsaved) (record.trans unrecorded)
      (whole_concat whole whole') fun mounted memory => ?_
    rw [mem_session_concat other]
    exact alone mounted memory
  | stuck saved unrecorded order between alone refused =>
    refine .stuck (snapshot ▸ saved) (record.trans unrecorded)
      (by rw [order, List.append_assoc, List.cons_append]) between alone fun mounted memory => ?_
    rw [mem_session_concat other]
    exact refused mounted memory
  | settled saved recorded schema entries matching whole mounts =>
    refine .settled (snapshot.trans saved) (record.trans recorded) schema entries matching
      (whole_concat whole whole') fun mounted memory => ?_
    rw [mem_session_concat other]
    exact mounts mounted memory

theorem Standing.cutOff (standing : Standing violation happenings disk)
    (resolves : Resolves violation disk.fresh events after) :
    Standing violation (happenings ++ [.cutOff events]) after := by
  have stays : disk.snapshot.isSome → Standing violation (happenings ++ [.cutOff events]) after := by
    intro saved
    have ⟨kept, quiet⟩ := resolves.2 saved
    refine standing.kept kept.snapshot kept.record ?_ nofun
    rintro ⟨_, same, landed⟩
    cases same
    rw [quiet] at landed
    exact nomatch landed
  cases standing with
  | unresolved unsaved unrecorded whole alone =>
    have other : ∀ mounted memory, Happening.cutOff events ≠ .session mounted memory := nofun
    have alone' : ∀ mounted memory, .session mounted memory ∉ happenings ++ [.cutOff events] :=
      fun mounted memory => (mem_session_concat other).not.mpr (alone mounted memory)
    have whole' : lands events ≠ [.landSnapshot] →
        ∀ happening ∈ happenings ++ [.cutOff events], ¬ Torn happening := by
      refine fun apart => whole_concat whole ?_
      rintro ⟨_, same, landed⟩
      cases same
      exact apart landed
    obtain ⟨_, ⟨quiet, none', none''⟩ | ⟨landed, saved, none''⟩ |
      ⟨landed, snapshot, record, saved, recorded, schema, names, entries, matching⟩⟩ :=
      resolves.1 unsaved unrecorded
    · exact .unresolved none' none'' (whole' (by simp [quiet])) alone'
    · refine .stuck saved none'' rfl ⟨events, rfl, landed⟩ alone fun mounted memory member => ?_
      exact absurd member List.not_mem_nil
    · exact .settled saved recorded schema entries matching (whole' (by rw [landed]; nofun))
        fun mounted memory member => absurd member (alone' mounted memory)
  | stuck saved => exact stays saved
  | settled saved => exact stays (by rw [saved]; rfl)

theorem Standing.session (standing : Standing violation happenings disk)
    (valid : disk.snapshot = none → ∀ library, disk.library = some library →
      ∃ stats, validateSkillsTree violation false path (some library) = .ok stats)
    (mounts : (mountLibrary violation path mode snapshotId createdAt).carryOut experimentDevice
      disk.fresh = (mounted, after)) :
    Standing violation (happenings ++ [.session mounted after.memory]) after := by
  cases standing with
  | unresolved unsaved unrecorded whole alone =>
    have ⟨snapshot, record, names, mounted', schema, entries, matching⟩ :=
      @mount_first disk.fresh violation path mode snapshotId createdAt unsaved unrecorded rfl rfl
        rfl (valid unsaved)
    cases mounts.symm.trans mounted'
    refine .settled rfl rfl schema entries matching (whole_concat whole not_torn_session)
      fun mounted' memory' member => ?_
    rcases List.mem_append.mp member with before | same
    · exact absurd before (alone _ _)
    · cases List.mem_singleton.mp same
      exact ⟨rfl, rfl⟩
  | stuck saved unrecorded order between alone refused =>
    cases mounts.symm.trans (mount_unrecorded violation path mode snapshotId createdAt saved
      unrecorded)
    refine .stuck saved unrecorded (by rw [order, List.append_assoc, List.cons_append]) between
      alone fun mounted' memory' member => ?_
    rcases List.mem_append.mp member with before | same
    · exact refused _ _ before
    · cases List.mem_singleton.mp same
      rfl
  | settled saved recorded schema entries matching whole mounts' =>
    cases mounts.symm.trans
      (mount_recorded saved recorded schema entries matching rfl)
    refine .settled saved recorded schema entries matching (whole_concat whole not_torn_session)
      fun mounted' memory' member => ?_
    rcases List.mem_append.mp member with before | same
    · exact mounts' _ _ before
    · cases List.mem_singleton.mp same
      exact ⟨rfl, rfl⟩

theorem standing_of_run (run : Run violation path mode happenings disk) :
    Standing violation happenings disk := by
  induction run with
  | start library => exact .unresolved rfl rfl nofun nofun
  | change library _ ih => exact ih.kept rfl rfl not_torn_change nofun
  | creationCutOff _ calm reaches ih => exact ih.cutOff (create_resolves calm reaches)
  | sessionCutOff _ calm reaches ih => exact ih.cutOff (mount_resolves calm reaches)
  | session _ valid mounts ih => exact ih.session valid mounts

/-- The library is frozen as long as no session comes after a process that has put the snapshot in
place and has died before it recorded it. -/
theorem sessions_mount_frozen_iff (run : Run violation path mode happenings disk) :
    Frozen happenings disk ↔ ∀ before torn after, happenings = before ++ torn :: after →
      Torn torn → ∀ mounted memory, .session mounted memory ∉ after := by
  cases standing_of_run run with
  | unresolved _ unrecorded _ alone =>
    constructor
    · rintro - before torn after rfl - mounted memory member
      exact alone mounted memory (by simp [member])
    · intro _
      refine ⟨fun _ _ member => absurd member (alone _ _),
        fun member => absurd member (alone _ _), fun record _ saved => ?_⟩
      exact nomatch unrecorded.symm.trans saved
  | @stuck _ unrecorded before after torn order between alone refused =>
    constructor
    · intro frozen before' torn' after' order' _ mounted memory member
      have there : .session mounted memory ∈ happenings := by
        rw [order']
        simp [member]
      have ⟨names, ok⟩ := frozen.succeeds mounted memory there
      rw [order] at there
      rcases List.mem_append.mp there with earlier | later
      · exact alone mounted memory earlier
      · rcases List.mem_cons.mp later with same | later
        · exact not_torn_session (same ▸ between)
        · exact nomatch (refused mounted memory later).symm.trans ok
    · intro none'
      have none' : ∀ mounted memory, .session mounted memory ∉ happenings := by
        intro mounted memory there
        rw [order] at there
        rcases List.mem_append.mp there with earlier | later
        · exact alone mounted memory earlier
        · rcases List.mem_cons.mp later with same | later
          · exact not_torn_session (same ▸ between)
          · exact none' before torn after order between mounted memory later
      refine ⟨fun _ _ member => absurd member (none' _ _),
        fun member => absurd member (none' _ _), fun record _ saved => ?_⟩
      exact nomatch unrecorded.symm.trans saved
  | @settled snapshot record names saved recorded _ entries matching whole mounts =>
    constructor
    · rintro - before torn after rfl between
      exact absurd between (whole torn (by simp))
    · intro _
      refine ⟨fun mounted memory member => ⟨_, (mounts mounted memory member).1⟩,
        fun member member' => ?_, fun record' entry recorded' there => ?_⟩
      · have ⟨mounted, memory⟩ := mounts _ _ member
        have ⟨mounted', memory'⟩ := mounts _ _ member'
        exact ⟨mounted.trans mounted'.symm, memory.trans memory'.symm⟩
      · cases recorded.symm.trans recorded'
        rw [entries] at there
        obtain ⟨name, member, rfl⟩ := List.mem_map.mp there
        rcases matching with ⟨rfl, _⟩ | ⟨_, tree, its, _, every⟩
        · exact nomatch member
        · exact ⟨name, tree, rfl, by rw [saved]; exact its, (every name).mpr member⟩

section Example

def notes : FileName := ⟨lit "notes", isName_notes⟩

/-- A library with one entry. -/
def notesLibrary : SkillsTree :=
  SkillsTree.empty.set notes <| (SkillItem.single (.directory true)).write [skillFilename]
    (.file (Utf8.encode "# Notes".toList))

def untouched : ExperimentDisk := ⟨some notesLibrary, none, none, none, none, none⟩

/-- A creation that comes as far as told. -/
def creationRun (told : List Bool) : List (Event SnapshotOp) × ExperimentDisk :=
  let run := (createSkillLibrarySnapshot (fun _ => []) [] .curated [] [] []).follow
    experimentDevice untouched told
  (run.1, run.2.1)

theorem creationRun_run (n : Nat) : Run (fun _ => []) [] .curated
    [.cutOff (creationRun (List.replicate n true)).1] (creationRun (List.replicate n true)).2 :=
  .creationCutOff (.start (some notesLibrary))
    (follow_calm fun _ member => List.eq_of_mem_replicate member) (reaches_follow _ _ _)

/-- A process that dies after its fifth operation, and all the sessions that come. -/
theorem notes_never_mounted :
    ∃ happenings disk, Run (fun _ => []) [] .curated happenings disk ∧
      ¬ Frozen happenings disk := by
  have saved : (creationRun (List.replicate 5 true)).2.fresh.snapshot.isSome = true := by decide
  have refused := mount_unrecorded (fun _ => []) [] .curated [] [] saved (by decide)
  refine ⟨_, _, .session (creationRun_run 5) (fun unsaved => ?_) refused, fun frozen => ?_⟩
  · exact nomatch (congrArg Option.isSome unsaved).symm.trans saved
  · have ⟨_, ok⟩ := frozen.succeeds _ _ (List.mem_append_right _ List.mem_cons_self)
    exact nomatch ok

/-- A process that comes to its end, and a session after the library has been taken away. -/
theorem notes_stay_frozen :
    ∃ happenings disk, Run (fun _ => []) [] .curated happenings disk ∧ Frozen happenings disk ∧
      ∃ memory, .session (.ok [notes]) memory ∈ happenings := by
  have changed := Run.change none (creationRun_run 8)
  let left : ExperimentDisk := { (creationRun (List.replicate 8 true)).2 with library := none }
  have mounted : ((mountLibrary (fun _ => []) [] .curated [] []).carryOut experimentDevice
      left.fresh).1 = .ok [notes] := by decide
  have run := Run.session changed (fun _ _ none' => nomatch none')
    (Prod.ext mounted rfl : (mountLibrary (fun _ => []) [] .curated [] []).carryOut
      experimentDevice left.fresh = (.ok [notes], _))
  refine ⟨_, _, run, (sessions_mount_frozen_iff run).mpr ?_, _,
    List.mem_append_right _ List.mem_cons_self⟩
  intro before torn after order between
  have landed : lands (creationRun (List.replicate 8 true)).1 = [.landSnapshot, .landRecord] := by
    decide
  have member : torn ∈ before ++ torn :: after := by simp
  rw [← order] at member
  simp only [List.mem_append, List.mem_singleton] at member
  obtain ⟨events, rfl, half⟩ := between
  rcases member with (same | same) | same
  · cases same
    exact nomatch landed.symm.trans half
  · exact nomatch same
  · exact nomatch same

end Example

end AutoTrade.SkillLibrary
