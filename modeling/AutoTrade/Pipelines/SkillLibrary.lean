import AutoTrade.Pipelines.Skills

/-!
# The skill library of an experiment

`create_skill_library_snapshot` and what reads it in `pipelines/skills.py`: the curated library is
copied beside the experiment and renamed into place, a record of it is written after that, and every
session of the experiment mounts the copy. The directory `artifacts` is there, or is made.
-/

namespace AutoTrade.SkillLibrary

open PyValue (lit)
open Faults (Program Storage)
open Skills

/-- `SKILL_LIBRARY_MODES`. -/
inductive SkillLibraryMode where
  | none'
  | curated
  deriving DecidableEq

/-- `CURATED_MEMORY_SOURCE`, which is also the origin of its entries. -/
def curatedMemorySource : PyStr := lit "curated"

structure SnapshotEntry where
  origin : PyStr
  source : PyStr
  name : PyStr
  deriving DecidableEq

structure SnapshotRecord where
  schemaVersion : Nat
  snapshotId : PyStr
  mode : SkillLibraryMode
  createdAt : PyStr
  createdFrom : PyStr
  entries : List SnapshotEntry
  deriving DecidableEq

def snapshotEntry (name : FileName) : SnapshotEntry :=
  ⟨curatedMemorySource, curatedMemorySource, name.val⟩

/-- `SKILL_LIBRARY_SNAPSHOT_SCHEMA`. -/
def skillLibrarySnapshotSchema : Nat := 1

/-- A directory of sources, of which there may be one: a snapshot, or what a session mounts. -/
structure Snapshot where
  curated : Option SkillsTree

/-- The library, an experiment, and the workspace of a session of it. -/
structure ExperimentDisk where
  library : Option SkillsTree
  /-- `artifacts/memory`. -/
  snapshot : Option Snapshot
  /-- `artifacts/memory_snapshot.json`. -/
  record : Option SnapshotRecord
  /-- The staging directory of the resolution that is going on. -/
  staging : Option Snapshot
  /-- The file that the record is written to first, whole or not. -/
  temporary : Option (Option SnapshotRecord)
  /-- `memory` in the workspace. -/
  memory : Option Snapshot

inductive SnapshotOp where
  | makeStaging
  | makeSource
  | copyEntry (name : FileName)
  | lockStaging
  | landSnapshot
  | removeStaging
  | writeTemporary (record : SnapshotRecord)
  | landRecord
  | removeTemporary
  | makeMemory
  | copySource
  | lockMemory
  deriving DecidableEq

/-- `chmod_tree` of a directory of sources. -/
def Snapshot.lock (snapshot : Snapshot) : Snapshot := ⟨snapshot.curated.map (·.chmod false)⟩

namespace ExperimentDisk

def staged (disk : ExperimentDisk) : Option SkillsTree := disk.staging.bind Snapshot.curated

def entry (disk : ExperimentDisk) (name : FileName) : Option SkillItem :=
  disk.library.bind fun library => library.items.get? name

/-- A tree that has passed the validator has no links that a copy would follow. -/
def apply (disk : ExperimentDisk) : SnapshotOp → ExperimentDisk
  | .makeStaging => { disk with staging := some ⟨none⟩ }
  | .makeSource => { disk with staging := some ⟨some .empty⟩ }
  | .copyEntry name =>
    match disk.staged, disk.entry name with
    | some tree, some item => { disk with staging := some ⟨some (tree.set name item)⟩ }
    | _, _ => disk
  | .lockStaging => { disk with staging := disk.staging.map Snapshot.lock }
  | .landSnapshot => { disk with snapshot := disk.staging, staging := none }
  | .removeStaging => { disk with staging := none }
  | .writeTemporary record => { disk with temporary := some (some record) }
  | .landRecord => { disk with record := disk.temporary.join, temporary := none }
  | .removeTemporary => { disk with temporary := none }
  | .makeMemory => { disk with memory := some ⟨none⟩ }
  | .copySource => { disk with memory := some ⟨disk.snapshot.bind Snapshot.curated⟩ }
  | .lockMemory => { disk with memory := disk.memory.map Snapshot.lock }

def legal (disk : ExperimentDisk) : SnapshotOp → Bool
  | .makeStaging => disk.staging.isNone
  | .makeSource => disk.staging.isSome && disk.staged.isNone
  | .copyEntry name => (disk.entry name).isSome &&
      (disk.staged.map fun tree => (tree.items.get? name).isNone).getD false
  | .lockStaging => true
  | .landSnapshot => disk.staging.isSome && disk.snapshot.isNone
  | .removeStaging => disk.staging.isSome
  | .writeTemporary _ => disk.temporary.isNone
  | .landRecord => disk.temporary.join.isSome
  | .removeTemporary => true
  | .makeMemory => disk.memory.isNone
  | .copySource => (disk.snapshot.bind Snapshot.curated).isSome && disk.memory.isSome
  | .lockMemory => true

/-- What an operation that is cut off leaves: a part of a copy, of a file or of what was to be
removed, or some modes that are changed. -/
def torn (disk : ExperimentDisk) : SnapshotOp → ExperimentDisk → Prop
  | .copyEntry _, left => ∃ staging, left = { disk with staging }
  | .lockStaging, left => ∃ staging, left = { disk with staging }
  | .removeStaging, left => ∃ staging, left = { disk with staging }
  | .writeTemporary _, left => left = { disk with temporary := some none }
  | .copySource, left => ∃ memory, left = { disk with memory }
  | .lockMemory, left => ∃ memory, left = { disk with memory }
  | _, _ => False

end ExperimentDisk

def experimentDevice : Storage ExperimentDisk SnapshotOp where
  apply := ExperimentDisk.apply
  legal := ExperimentDisk.legal
  torn := ExperimentDisk.torn

abbrev SnapshotProgram (α : Type) := Program ExperimentDisk SnapshotOp Failure α

/-- What the disk says. -/
def reading {α : Type} (read : ExperimentDisk → Except Failure α) : SnapshotProgram α :=
  Program.reading .os read

def act (op : SnapshotOp) : SnapshotProgram Unit := Program.performing .os op

section Policy

/- What the transferable boundary objects to in a text, and how the path of a tree is shown. -/
variable (violation : PyStr → PyStr) (path : PyStr)

/-- `skill_library_entries`. -/
def skillLibraryEntries (library : SkillsTree) : Except Failure (List FileName) := do
  let _ ← validateSkillsTree violation false path (some library)
  return sortedBy Subtype.val library.items.keys

/-- `curated_memory_source`: its entries, nothing when there is no library or none in it. -/
def curatedMemorySourceOf (library : Option SkillsTree) : Except Failure (Option (List FileName)) :=
  match library with
  | none => .ok none
  | some library => do
    let entries ← skillLibraryEntries violation path library
    return if entries = [] then none else some entries

/-- The sources that an experiment of a mode freezes. -/
def frozenSources (mode : SkillLibraryMode) (library : Option SkillsTree) :
    Except Failure (Option (List FileName)) :=
  match mode with
  | .none' => .ok none
  | .curated => curatedMemorySourceOf violation path library

def copyEntries : List FileName → SnapshotProgram Unit
  | [] => pure ()
  | name :: rest => do
    act (.copyEntry name)
    copyEntries rest

/-- The copies of a source's entries, where they are staged. -/
def stageSource (entries : List FileName) : SnapshotProgram Unit := do
  act .makeSource
  copyEntries entries

/-- `chmod_tree(staging, …)`, which raises nothing. -/
def lockStaging : SnapshotProgram Unit := .op .lockStaging (.done ()) (.done ())

/-- The snapshot as it is staged and checked. -/
def prepareSnapshot (sources : Option (List FileName)) : SnapshotProgram Unit := do
  act .makeStaging
  match sources with
  | none => lockStaging
  | some entries => do
    stageSource entries
    lockStaging
    let _ ← reading fun disk => validateSkillsTree violation false path disk.staged

/-- The snapshot is put in place by one rename. -/
def stageSnapshot (sources : Option (List FileName)) : SnapshotProgram Unit := do
  prepareSnapshot violation path sources
  act .landSnapshot

/-- The staging directory is removed if it is still there. -/
def cleanStaging : SnapshotProgram Unit := do
  let there ← reading fun disk => .ok disk.staging.isSome
  if there then
    .op .removeStaging (.done ()) (.done ())

/-- `write_json_atomic`. -/
def writeRecord (record : SnapshotRecord) : SnapshotProgram Unit :=
  Program.andFinally (do
    act (.writeTemporary record)
    act .landRecord) (act .removeTemporary)

def alreadyExists : Failure := .fileExists (lit "skill library snapshot already exists")

/-- `create_skill_library_snapshot`, with the id and the time that the record gets. -/
def createSkillLibrarySnapshot (mode : SkillLibraryMode) (createdFrom snapshotId createdAt : PyStr) :
    SnapshotProgram SnapshotRecord := do
  reading fun disk =>
    if disk.record.isSome || disk.snapshot.isSome then .error alreadyExists else .ok ()
  let sources ← reading fun disk => frozenSources violation path mode disk.library
  (stageSnapshot violation path sources).andFinally cleanStaging
  let record : SnapshotRecord := {
    schemaVersion := skillLibrarySnapshotSchema, snapshotId, mode, createdAt, createdFrom
    entries := (sources.getD []).map snapshotEntry }
  writeRecord record
  return record

/-- `read_skill_library_snapshot`. -/
def readSkillLibrarySnapshot (disk : ExperimentDisk) : Except Failure (Option SnapshotRecord) :=
  match disk.record with
  | none => .ok none
  | some record =>
    if record.schemaVersion ≠ skillLibrarySnapshotSchema then
      .error (.value (lit "skill library snapshot has an unknown schema_version"))
    else .ok (some record)

/-- `ensure_skill_library_snapshot`. -/
def ensureSkillLibrarySnapshot (mode : SkillLibraryMode) (snapshotId createdAt : PyStr) :
    SnapshotProgram SnapshotRecord := do
  let existing ← reading readSkillLibrarySnapshot
  match existing with
  | some record => return record
  | none =>
    createSkillLibrarySnapshot violation path mode (lit "first_session") snapshotId createdAt

/-- `snapshot_memory_sources`: the entries of the one source, in order. -/
def snapshotMemorySources (record : SnapshotRecord) : Except Failure (List FileName) := do
  let names ← record.entries.mapM fun entry => do
    let name ← validateSkillName violation entry.name
    if entry.origin ≠ curatedMemorySource || entry.source ≠ curatedMemorySource then
      throw (.value (lit "skill library snapshot entry is invalid"))
    return name
  return sortedBy Subtype.val names

/-- `chmod_tree(destination, …)`. -/
def lockMemory : SnapshotProgram Unit := .op .lockMemory (.done ()) (.done ())

/-- `install_skill_library`: the entries mounted. -/
def installSkillLibrary : SnapshotProgram (List FileName) := do
  let existing ← reading readSkillLibrarySnapshot
  match existing with
  | none => throw (.fileNotFound (lit "experiment has no skill library snapshot to mount"))
  | some record => do
    reading fun disk => if disk.memory.isSome then
      .error (.fileExists (lit "workspace memory directory already exists")) else .ok ()
    let mounted ← Program.ofExcept (snapshotMemorySources violation record)
    if mounted = [] then return []
    act .makeMemory
    act .copySource
    lockMemory
    let _ ← reading fun disk =>
      validateSkillsTree violation false path (disk.memory.bind Snapshot.curated)
    return mounted

/-- What a session does before anything else. -/
def mountLibrary (mode : SkillLibraryMode) (snapshotId createdAt : PyStr) :
    SnapshotProgram (List FileName) := do
  let _ ← ensureSkillLibrarySnapshot violation path mode snapshotId createdAt
  installSkillLibrary violation path

/-- What a new process has: names of its own for what it writes first, and a new workspace. -/
def ExperimentDisk.fresh (disk : ExperimentDisk) : ExperimentDisk :=
  { disk with staging := none, temporary := none, memory := none }

inductive Happening where
  /-- The library is changed. -/
  | change
  /-- The process that creates the experiment, or a session, dies after these events. -/
  | cutOff (events : List (Faults.Event SnapshotOp))
  /-- A session mounts the library, or does not, and what its workspace then has of it. -/
  | session (mounted : Except Failure (List FileName)) (memory : Option Snapshot)

/-- No operation fails; the process may still die. -/
def Calm (events : List (Faults.Event SnapshotOp)) : Prop := ∀ op, .failed op ∉ events

/-- What happens to an experiment of a mode, whose library is valid when a session freezes it. -/
inductive Run (mode : SkillLibraryMode) : List Happening → ExperimentDisk → Prop where
  | start (library : Option SkillsTree) : Run mode [] ⟨library, none, none, none, none, none⟩
  | change {happenings : List Happening} {disk : ExperimentDisk} (library : Option SkillsTree)
      (before : Run mode happenings disk) :
      Run mode (happenings ++ [.change]) { disk with library }
  | creationCutOff {happenings : List Happening} {disk after : ExperimentDisk}
      {events : List (Faults.Event SnapshotOp)} {createdFrom snapshotId createdAt : PyStr}
      (before : Run mode happenings disk) (calm : Calm events)
      (reaches : Faults.Reaches experimentDevice
        (createSkillLibrarySnapshot violation path mode createdFrom snapshotId createdAt)
        disk.fresh events after) :
      Run mode (happenings ++ [.cutOff events]) after
  | sessionCutOff {happenings : List Happening} {disk after : ExperimentDisk}
      {events : List (Faults.Event SnapshotOp)} {snapshotId createdAt : PyStr}
      (before : Run mode happenings disk) (calm : Calm events)
      (reaches : Faults.Reaches experimentDevice
        (mountLibrary violation path mode snapshotId createdAt) disk.fresh events after) :
      Run mode (happenings ++ [.cutOff events]) after
  | session {happenings : List Happening} {disk after : ExperimentDisk}
      {mounted : Except Failure (List FileName)} {snapshotId createdAt : PyStr}
      (before : Run mode happenings disk)
      (valid : disk.snapshot = none → ∀ library, disk.library = some library →
        ∃ stats, validateSkillsTree violation false path (some library) = .ok stats)
      (mounts : (mountLibrary violation path mode snapshotId createdAt).carryOut experimentDevice
        disk.fresh = (mounted, after)) :
      Run mode (happenings ++ [.session mounted after.memory]) after

end Policy

end AutoTrade.SkillLibrary
