import AutoTrade.DataSources.Tushare.Frames
import AutoTrade.Misc.Crash
import AutoTrade.Misc.Dict

/-!
# Partitions on disk

A raw-lake partition as its files: the visible parquet with its sidecar and its
observation table, what writers staged beside it, and the versions kept outside
the raw tree. The operations are the system calls of
`autotrade/data_sources/tushare/io.py` and `versions.py`, a staged write being
the one that a crash can tear; the recovery is `autotrade/environment/data/pit.py`.
-/

namespace AutoTrade

/-- A UTC instant in microseconds. -/
abbrev Stamp := Nat

/-- A UUID; a supply of them never repeats one. -/
abbrev WriteId := Nat

/-- A file as a crash may leave it. -/
inductive Written (α : Type) where
  | whole (content : α)
  | torn

def Written.content? {α : Type} : Written α → Option α
  | .whole content => some content
  | .torn => none

/-- A parquet; a legacy one carries no write id in its footer. -/
structure Parquet (Cell : Type) where
  writeId : Option WriteId
  frame : Frame Cell

/-- What the code reads of a `.meta.json`. -/
structure Sidecar where
  params : String
  fields : List String
  rowCount : Option Nat
  writeId : Option WriteId
  visibleSince : Option Stamp
  keyColumns : List String
  restatedWriteId : Option WriteId
  deriving DecidableEq

/-- What an absent or unreadable sidecar is read as. -/
def Sidecar.none : Sidecar := ⟨"", [], .none, .none, .none, [], .none⟩

/-- A row of an observation table, its key columns joined. -/
structure FirstSeenRow where
  key : Text
  firstSeenAt : Stamp
  deriving DecidableEq

inductive VersionKind where
  | staged | superseded
  deriving DecidableEq

/-- A version id: the instant it is named by, and its kind. -/
structure Version where
  stamp : Stamp
  kind : VersionKind
  deriving DecidableEq

/-- The files of one partition. -/
structure Disk (Cell : Type) where
  parquet : Option (Parquet Cell)
  sidecar : Option (Written Sidecar)
  firstSeen : Option (List FirstSeenRow)
  stagedParquets : Dict WriteId (Written (Parquet Cell))
  stagedSidecars : Dict WriteId (Written Sidecar)
  stagedTables : Dict WriteId (Written (List FirstSeenRow))
  versions : Dict Version (Parquet Cell)
  versionSidecars : Dict Version (Written Sidecar)

/-- A staged file, by its name. -/
inductive Leftover where
  | parquet (token : WriteId)
  | sidecar (token : WriteId)
  | table (token : WriteId)
  deriving DecidableEq

/-- A system call on the files of a partition. -/
inductive DiskOp (Cell : Type) where
  | stageParquet (token : WriteId) (parquet : Parquet Cell)
  | stageSidecar (token : WriteId) (m : Sidecar)
  | stageTable (token : WriteId) (table : List FirstSeenRow)
  /-- `os.link` of a kept version to a staged name. -/
  | stageVersion (token : WriteId) (version : Version)
  | replaceParquet (token : WriteId)
  | replaceSidecar (token : WriteId)
  | replaceTable (token : WriteId)
  /-- `os.link` of the visible files to a version. -/
  | keepParquet (version : Version)
  | keepSidecar (version : Version)
  /-- The two renames that end the writing of a staged version. -/
  | putVersion (version : Version) (parquet : Parquet Cell)
  | putVersionSidecar (version : Version) (m : Sidecar)
  | unlink (leftover : Leftover)

variable {Cell : Type}

namespace Disk

/-- Whether the staged file is there. -/
def holds (d : Disk Cell) : Leftover → Bool
  | .parquet token => token ∈ d.stagedParquets.keys
  | .sidecar token => token ∈ d.stagedSidecars.keys
  | .table token => token ∈ d.stagedTables.keys

/-- An operation carried out. A rename whose source is not there fails; the only
caller that meets this passes over it. -/
def apply (d : Disk Cell) : DiskOp Cell → Disk Cell
  | .stageParquet token parquet =>
    { d with stagedParquets := d.stagedParquets.set token (.whole parquet) }
  | .stageSidecar token m => { d with stagedSidecars := d.stagedSidecars.set token (.whole m) }
  | .stageTable token table => { d with stagedTables := d.stagedTables.set token (.whole table) }
  | .stageVersion token version =>
    match d.versions.get? version with
    | some parquet => { d with stagedParquets := d.stagedParquets.set token (.whole parquet) }
    | none => d
  | .replaceParquet token =>
    match d.stagedParquets.get? token with
    | some (.whole parquet) =>
      { d with parquet := some parquet, stagedParquets := d.stagedParquets.erase token }
    -- No writer renames a parquet it has not written whole.
    | _ => d
  | .replaceSidecar token =>
    match d.stagedSidecars.get? token with
    | some m => { d with sidecar := some m, stagedSidecars := d.stagedSidecars.erase token }
    | none => d
  | .replaceTable token =>
    match d.stagedTables.get? token with
    | some (.whole table) =>
      { d with firstSeen := some table, stagedTables := d.stagedTables.erase token }
    | _ => d
  | .keepParquet version =>
    match d.parquet with
    | some parquet => { d with versions := d.versions.set version parquet }
    | none => d
  | .keepSidecar version =>
    match d.sidecar with
    | some m => { d with versionSidecars := d.versionSidecars.set version m }
    | none => d
  | .putVersion version parquet => { d with versions := d.versions.set version parquet }
  | .putVersionSidecar version m =>
    { d with versionSidecars := d.versionSidecars.set version (.whole m) }
  | .unlink (.parquet token) => { d with stagedParquets := d.stagedParquets.erase token }
  | .unlink (.sidecar token) => { d with stagedSidecars := d.stagedSidecars.erase token }
  | .unlink (.table token) => { d with stagedTables := d.stagedTables.erase token }

/-- A crash inside the writing of a staged file leaves part of it. -/
def tear (d : Disk Cell) : DiskOp Cell → List (Disk Cell)
  | .stageParquet token _ => [{ d with stagedParquets := d.stagedParquets.set token .torn }]
  | .stageSidecar token _ => [{ d with stagedSidecars := d.stagedSidecars.set token .torn }]
  | .stageTable token _ => [{ d with stagedTables := d.stagedTables.set token .torn }]
  | _ => []

end Disk

/-- The files of a partition as storage that operations change. -/
def partitionDevice (Cell : Type) : Device (Disk Cell) (DiskOp Cell) := ⟨Disk.apply, Disk.tear⟩

namespace Disk

def run (d : Disk Cell) (ops : List (DiskOp Cell)) : Disk Cell := (partitionDevice Cell).run d ops

/-- The sidecar, where it can be read. -/
def readable (d : Disk Cell) : Option Sidecar := d.sidecar.bind Written.content?

end Disk

/-- `complete_interrupted_commit`: a commit that renamed its parquet but not its
sidecar is rolled forward. -/
def completeInterruptedCommit (d : Disk Cell) : List (DiskOp Cell) :=
  match d.parquet.bind Parquet.writeId with
  | none => []
  | some footer =>
    if d.readable.bind Sidecar.writeId = some footer then [] else [.replaceSidecar footer]

/-- The partition with its interrupted commit completed. -/
def Disk.completed (d : Disk Cell) : Disk Cell := d.run (completeInterruptedCommit d)

/-- One staged file, as `complete_interrupted_commits` meets it: a sidecar may
complete its commit, and what is left is removed. -/
def sweepOne (d : Disk Cell) (leftover : Leftover) : List (DiskOp Cell) :=
  match leftover with
  | .sidecar _ =>
    completeInterruptedCommit d ++ if d.completed.holds leftover then [.unlink leftover] else []
  | _ => if d.holds leftover then [.unlink leftover] else []

/-- `complete_interrupted_commits` over the staged files of the partition, in the
order the directory lists them. -/
def completeInterruptedCommits (d : Disk Cell) : List Leftover → List (DiskOp Cell)
  | [] => []
  | leftover :: rest =>
    sweepOne d leftover ++ completeInterruptedCommits (d.run (sweepOne d leftover)) rest

end AutoTrade
