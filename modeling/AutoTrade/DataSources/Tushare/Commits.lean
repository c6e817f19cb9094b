import AutoTrade.Environment.Data.Partition

/-!
# The commits of a partition

What the writers of `autotrade/data_sources/tushare/io.py` and `versions.py` do to the files
of one partition, as the system calls they make, and what each of them leaves visible.
-/

namespace AutoTrade

variable {Cell : Type}

/-- What `write_parquet` publishes: a frame under a write id, and the rest of its sidecar. -/
structure Commit (Cell : Type) where
  writeId : WriteId
  frame : Frame Cell
  fields : Sidecar

namespace Commit

def parquet (commit : Commit Cell) : Parquet Cell := ⟨some commit.writeId, commit.frame⟩

def sidecar (commit : Commit Cell) : Sidecar :=
  { commit.fields with
    rowCount := some commit.frame.rows.length, writeId := some commit.writeId }

end Commit

/-- The two renames that end a write. -/
def replacePair (token writeId : WriteId) : List (DiskOp Cell) :=
  [.replaceParquet token, .replaceSidecar writeId]

/-- `write_parquet`. -/
def writeParquet (commit : Commit Cell) : List (DiskOp Cell) :=
  [.stageParquet commit.writeId commit.parquet, .stageSidecar commit.writeId commit.sidecar] ++
    replacePair commit.writeId commit.writeId

/-- `_keep_version`. -/
def keepVersion (version : Version) : List (DiskOp Cell) :=
  [.keepParquet version, .keepSidecar version]

/-- An observation table to write, under the token it is staged by. -/
abbrev TableWrite := WriteId × List FirstSeenRow

/-- `_write_table`. -/
def writeTable (write : TableWrite) : List (DiskOp Cell) :=
  [.stageTable write.1 write.2, .replaceTable write.1]

/-- `committed_partition_intact`. -/
def Disk.intact (d : Disk Cell) : Bool :=
  match d.parquet, d.readable with
  | some p, some m =>
    p.writeId.isSome && m.writeId = p.writeId && m.rowCount = some p.frame.rows.length
  | _, _ => false

/-- What `_refresh_sidecar` writes of a wider request over the committed content. -/
def Disk.refreshed (d : Disk Cell) (params : String) (fields : List String) : Option Sidecar :=
  if d.intact then
    d.readable.bind fun m =>
      if m.params = params ∧ m.fields = fields then none else some { m with params, fields }
  else none

/-- The sidecar a `restore` writes: the version's, its key columns the visible ones where it
has none. -/
def restoredSidecar (d : Disk Cell) (kept : Sidecar) (instant : Stamp) : Sidecar :=
  { kept with
    visibleSince := some instant
    keyColumns := if kept.keyColumns = []
      then ((d.parquet.bind fun _ => d.readable).getD .none).keyColumns else kept.keyColumns }

/-- One run of a writer, or of the recovery. The ids it takes, the version a restatement keeps
and the observation table it writes are its own. -/
inductive PartitionEvent (Cell : Type) where
  /-- `publish`, where it lands the frame. -/
  | publish (superseded : Option Version) (table : Option TableWrite) (commit : Commit Cell)
  /-- `publish`, where the content is unchanged: `_refresh_sidecar`. -/
  | refresh (token : WriteId) (params : String) (fields : List String)
  /-- `publish`, where the answer is staged: `_stage`. -/
  | stage (version : Version) (commit : Commit Cell)
  | restore (version superseded : Version) (table : Option TableWrite) (token : WriteId)
      (instant : Stamp)
  /-- `complete_interrupted_commits`, with the staged files as the directory lists them. -/
  | sweep (leftovers : List Leftover)

/-- What a reader finds: a parquet and a sidecar. -/
abbrev Content (Cell : Type) := Option (Parquet Cell) × Option (Written Sidecar)

def Disk.visible (d : Disk Cell) : Content Cell := (d.parquet, d.sidecar)

/-- What is visible once an interrupted commit is completed. -/
def Disk.committed (d : Disk Cell) : Content Cell := d.completed.visible

namespace PartitionEvent

/-- What a writer does once the interrupted commit before it is completed. -/
def write (d : Disk Cell) : PartitionEvent Cell → List (DiskOp Cell)
  | .publish superseded table commit =>
    superseded.elim [] keepVersion ++ (table.elim [] writeTable ++ writeParquet commit)
  | .refresh token params fields =>
    (d.refreshed params fields).elim [] fun m => [.stageSidecar token m, .replaceSidecar token]
  | .stage version commit =>
    [.putVersion version commit.parquet, .putVersionSidecar version commit.sidecar]
  | .restore version superseded table token instant =>
    match d.versionSidecars.get? version with
    | some (.whole kept) =>
      (d.parquet.map fun _ => superseded).elim [] keepVersion ++ (table.elim [] writeTable ++
        -- The staged sidecar is named by the write id: without one, a `KeyError`.
        (.stageVersion token version :: kept.writeId.elim [] fun writeId =>
          .stageSidecar writeId (restoredSidecar d kept instant) :: replacePair token writeId))
    | _ => []
  | .sweep _ => []

/-- The system calls of an event. -/
def ops (d : Disk Cell) : PartitionEvent Cell → List (DiskOp Cell)
  | .sweep leftovers => completeInterruptedCommits d leftovers
  | .restore version superseded table token instant =>
    if (d.versions.get? version).isSome ∧ (d.versionSidecars.get? version).isSome then
      completeInterruptedCommit d ++
        write d.completed (.restore version superseded table token instant)
    else []
  | event => completeInterruptedCommit d ++ event.write d.completed

/-- What an event commits. -/
def lands (d : Disk Cell) : PartitionEvent Cell → Content Cell
  | .publish _ _ commit => (some commit.parquet, some (.whole commit.sidecar))
  | .refresh _ params fields =>
    (d.completed.refreshed params fields).elim d.committed fun m =>
      (d.committed.1, some (.whole m))
  | .restore version _ _ _ instant =>
    match d.versions.get? version, d.versionSidecars.get? version with
    | some p, some (.whole kept) =>
      if kept.writeId.isSome then
        (some p, some (.whole (restoredSidecar d.completed kept instant)))
      else d.committed
    | _, _ => d.committed
  | .stage _ _ | .sweep _ => d.committed

end PartitionEvent

/-- A parquet that is visible or kept. -/
def Disk.Kept (d : Disk Cell) (p : Parquet Cell) : Prop :=
  d.parquet = some p ∨ ∃ version, d.versions.get? version = some p

/-- A write id no parquet has. -/
def Disk.NewWrite (d : Disk Cell) (writeId : WriteId) : Prop :=
  ∀ p, d.Kept p → p.writeId ≠ some writeId

/-- A version id nothing is kept under. -/
def Disk.NewVersion (d : Disk Cell) (version : Version) : Prop :=
  d.versions.get? version = none ∧ d.versionSidecars.get? version = none

/-- The ids an event takes are new: a UUID, and a version named by the instant it is kept at. -/
def PartitionEvent.Fresh (d : Disk Cell) : PartitionEvent Cell → Prop
  | .publish superseded _ commit =>
    (∀ version ∈ superseded, d.NewVersion version) ∧ d.NewWrite commit.writeId
  | .stage version commit => d.NewVersion version ∧ d.NewWrite commit.writeId
  | .restore _ superseded _ _ _ => d.NewVersion superseded
  | .refresh _ _ _ | .sweep _ => True

/-- A parquet and a sidecar that name one write, or no write at all. -/
def Paired (content : Content Cell) : Prop :=
  content.1.bind Parquet.writeId = (content.2.bind Written.content?).bind Sidecar.writeId

/-- A partition as nothing has touched it yet. -/
def Disk.landed (content : Content Cell) : Disk Cell :=
  ⟨content.1, content.2, none, .empty, .empty, .empty, .empty, .empty⟩

/-- A partition that runs of its writers and of the recovery have gone over, any of them cut off
anywhere. -/
inductive Disk.Reached : Disk Cell → Prop
  | landed {content : Content Cell} (paired : Paired content) : Reached (landed content)
  | run {d t : Disk Cell} {event : PartitionEvent Cell} (reached : Reached d)
      (fresh : event.Fresh d) (cut : t ∈ (partitionDevice Cell).crashes d (event.ops d)) :
      Reached t

end AutoTrade
