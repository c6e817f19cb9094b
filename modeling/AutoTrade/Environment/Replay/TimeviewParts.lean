import AutoTrade.Environment.Data.Partition
import AutoTrade.Environment.SessionTree

/-!
# The parts of an as-of view

`autotrade/environment/replay/timeview.py`: a domain of the rolling view is a directory of parquet
parts, one a refresh that published rows, and the parts of a finished month are merged into one
(`_MonthParts`). A part is encoded once into the stash of its contract and linked from there. The
operations on the files are listed in their order, so that a refresh may be cut off in any of them.
-/

namespace AutoTrade

open SessionTree (zeroPadded)

namespace Timeview

/-- A parquet part: the rows of its row groups. -/
abbrev Part (Row : Type) := List (List Row)

variable {Row : Type}

/-- `_project` on the schema of part 0: what a directory read makes of a row of any part. -/
structure PartSchema (Row : Type) where
  project : Row → Row
  /-- A cast to a column's own type is none. -/
  project_project : ∀ row, project (project row) = project row

/-- The row count a parquet footer carries. -/
def rowCount (part : Part Row) : Nat := (part.map List.length).sum

def parquetSuffix : Text := ".parquet".toList

def partName (seq : Nat) : Text := "part_".toList ++ zeroPadded 4 seq ++ parquetSuffix

def rangeName (stem : Text) (first last : Nat) : Text :=
  stem ++ zeroPadded 4 first ++ '_' :: zeroPadded 4 last ++ parquetSuffix

/-- The part a month is merged into. -/
def mergedName : Nat → Nat → Text := rangeName "part_".toList

/-- The name of a merged part in the stash. -/
def stashedMerge : Nat → Nat → Text := rangeName "merged_".toList

/-- A stash directory and a name in it. -/
abbrev StashKey := Text × Text

/-- The files of a domain, and the stashes of its contract. -/
structure PartFiles (Row : Type) where
  dir : Dict Text (Written (Part Row)) := Dict.empty
  stash : Dict StashKey (Part Row) := Dict.empty

/-- An operation on the files. -/
inductive PartOp (Row : Type) where
  | write (name : Text) (part : Part Row)
  /-- A part encoded beside its place in the stash, and renamed into it. -/
  | stash (key : StashKey) (part : Part Row)
  /-- `os.link` of a stashed part into the directory. -/
  | link (key : StashKey) (name : Text)
  | unlink (name : Text)

def PartFiles.apply (files : PartFiles Row) : PartOp Row → PartFiles Row
  | .write name part => { files with dir := files.dir.set name (.whole part) }
  | .stash key part => { files with stash := files.stash.set key part }
  | .link key name =>
    match files.stash.get? key with
    | none => files
    | some part => { files with dir := files.dir.set name (.whole part) }
  | .unlink name => { files with dir := files.dir.erase name }

/-- What an interrupted operation leaves: a part without a footer, or with some of its groups. -/
def PartFiles.torn (files : PartFiles Row) : PartOp Row → List (PartFiles Row)
  | .write name part =>
    { files with dir := files.dir.set name .torn } ::
      part.inits.map fun groups => { files with dir := files.dir.set name (.whole groups) }
  | _ => []

def partDevice (Row : Type) : Device (PartFiles Row) (PartOp Row) :=
  ⟨PartFiles.apply, PartFiles.torn⟩

/-- A read of the directory: its parts in the order of their names, each row on part 0's schema. A
part without a footer cannot be read. -/
def readDir (schema : PartSchema Row) (dir : Dict Text (Written (Part Row))) : Option (List Row) :=
  let entries := dir.entries.insertionSort fun a b => a.1 ≤ b.1
  let parts : Option (List (Part Row)) := entries.mapM fun entry => entry.2.content?
  parts.map fun parts => (parts.flatMap List.flatten).map schema.project

/-- The rows a refresh publishes, the month it does so in and the stash bound then. -/
structure Publication (Row : Type) where
  month : Nat × Nat
  part : Part Row
  stash : Option Text

/-- What every view under one contract publishes: a frozen part, if there is one, and the parts
of its refreshes by their numbers. -/
structure PartPlan (Row : Type) where
  frozen : Option (Part Row)
  publication : Nat → Publication Row

/-- The part of a number. -/
def PartPlan.part (plan : PartPlan Row) (seq : Nat) : Part Row :=
  if seq = 0 then plan.frozen.getD (plan.publication 0).part else (plan.publication seq).part

/-- `_MonthParts`: the month whose parts are being published, their numbers and rows. -/
structure MonthParts where
  month : Option (Nat × Nat) := none
  first : Nat := 0
  last : Nat := 0
  rows : Nat := 0
  deriving DecidableEq

/-- A view of one domain. -/
structure PartView (Row : Type) where
  files : PartFiles Row := {}
  partSeq : Nat := 0
  months : MonthParts := {}
  /-- Whether no refresh of the view has raised. -/
  live : Bool := false

/-- A part written, or published through its stash (`_publish_checked_part`); a stashed part with
another row count is refused. -/
def publishPart (files : PartFiles Row) (stash : Option StashKey) (name : Text) (rows : Nat)
    (part : Part Row) : Option (List (PartOp Row)) :=
  match stash with
  | none => some [.write name part]
  | some key =>
    match files.stash.get? key with
    | none => some [.stash key part, .link key name]
    | some stashed => if rowCount stashed = rows then some [.link key name] else none

/-- `_write_merged`: the sources concatenated on part 0's schema, group by group. -/
def mergedPart (schema : PartSchema Row) (dir : Dict Text (Written (Part Row))) (first last : Nat) :
    Option (Part Row) :=
  ((List.range' first (last + 1 - first)).mapM fun seq =>
    (dir.get? (partName seq)).bind Written.content?).map fun parts =>
      parts.flatMap (List.map (List.map schema.project))

/-- `_merge`: the merged part published, and its sources removed. -/
def mergeOps (schema : PartSchema Row) (files : PartFiles Row) (months : MonthParts)
    (stash : Option Text) : Option (List (PartOp Row)) := do
  let merged ← mergedPart schema files.dir months.first months.last
  let key := stash.map fun dir => (dir, stashedMerge months.first months.last)
  let published ← publishPart files key (mergedName months.first months.last) months.rows merged
  return published ++ (List.range' months.first (months.last + 1 - months.first)).map
    fun seq => .unlink (partName seq)

/-- `published`: the month's record of a new part, and the merge of the month before. -/
def monthOps (schema : PartSchema Row) (view : PartView Row) (next : Publication Row) :
    Option (List (PartOp Row) × MonthParts) :=
  let months := view.months
  if view.partSeq = 0 then some ([], months)
  else if months.month = some next.month then
    some ([], { months with last := view.partSeq, rows := months.rows + rowCount next.part })
  else
    let merge := if months.first < months.last then mergeOps schema view.files months next.stash
      else some []
    merge.map fun ops => (ops, ⟨some next.month, view.partSeq, view.partSeq, rowCount next.part⟩)

/-- A refresh that publishes: the operations of `_write_part`, in order, and the month's record. -/
def refreshOps (schema : PartSchema Row) (view : PartView Row) (next : Publication Row) :
    Option (List (PartOp Row) × MonthParts) := do
  let name := partName view.partSeq
  let written ← publishPart view.files (next.stash.map fun dir => (dir, name)) name
    (rowCount next.part) next.part
  let months ← monthOps schema view next
  return (written ++ months.1, months.2)

/-- The start of a view: the directory emptied, and the frozen part linked or copied. -/
def startOps (plan : PartPlan Row) (files : PartFiles Row) : List (PartOp Row) :=
  files.dir.keys.map .unlink ++ plan.frozen.toList.map (.write (partName 0))

/-- What the contract says a stash holds: a part under its name, or a merge of parts. -/
inductive Stashes (schema : PartSchema Row) (plan : PartPlan Row) : Text → Part Row → Prop where
  | part (seq : Nat) : Stashes schema plan (partName seq) (plan.part seq)
  | merge (first last : Nat) (order : first < last) :
      Stashes schema plan (stashedMerge first last)
        ((List.range' first (last + 1 - first)).flatMap fun seq =>
          (plan.part seq).map (List.map schema.project))

/-- The states of a view's directory over any number of views under one contract, each cut off
anywhere; other runs fill the stashes beside them. A refresh that was cut off raised, and no view
refreshes again after that: the next one starts from an empty directory. -/
inductive Reached (schema : PartSchema Row) (plan : PartPlan Row) : PartView Row → Prop where
  | new : Reached schema plan {}
  | start {view : PartView Row} (reached : Reached schema plan view) :
      Reached schema plan
        { files := (partDevice Row).run view.files (startOps plan view.files)
          partSeq := if plan.frozen.isSome then 1 else 0, live := true }
  | startCut {view : PartView Row} {files : PartFiles Row} (reached : Reached schema plan view)
      (cut : files ∈ (partDevice Row).crashes view.files (startOps plan view.files)) :
      Reached schema plan { files }
  | publish {view : PartView Row} {ops : List (PartOp Row)} {months : MonthParts}
      (reached : Reached schema plan view) (live : view.live = true)
      (refresh : refreshOps schema view (plan.publication view.partSeq) = some (ops, months)) :
      Reached schema plan
        { view with files := (partDevice Row).run view.files ops
                    partSeq := view.partSeq + 1, months }
  | publishCut {view : PartView Row} {ops : List (PartOp Row)} {months : MonthParts}
      {files : PartFiles Row} (reached : Reached schema plan view) (live : view.live = true)
      (refresh : refreshOps schema view (plan.publication view.partSeq) = some (ops, months))
      (cut : files ∈ (partDevice Row).crashes view.files ops) :
      Reached schema plan { view with files, live := false }
  | stashed {view : PartView Row} {dir name : Text} {part : Part Row}
      (reached : Reached schema plan view) (holds : Stashes schema plan name part) :
      Reached schema plan
        { view with files := { view.files with stash := view.files.stash.set (dir, name) part } }

end Timeview

end AutoTrade
