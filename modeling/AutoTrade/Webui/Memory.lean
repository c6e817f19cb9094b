import AutoTrade.Pipelines.Skills

/-!
# Writing to the curated library

The writes of `webui/memory.py`: an entry is staged beside the library, checked there, and moved
into the library, and what it replaces is moved out before. Each file operation may fail, and the
process may die, or a session look at the library, between any two of them. The entries that the
answer to a write lists are left out.
-/

namespace AutoTrade.CuratedLibrary

open PyValue (lit)
open Utf8 (Bytes)
open Faults (Program Storage)
open Skills

/-- A staging directory. -/
structure Staging where
  /-- `staging / "library"`. -/
  tree : Option SkillsTree
  /-- The entry that has been moved out of the library. -/
  moved : Option SkillItem

structure LibraryDisk where
  library : Option SkillsTree
  /-- The staging directory of the write that is going on. -/
  staging : Option Staging

inductive LibraryOp where
  | makeLibrary
  /-- `tempfile.mkdtemp`. -/
  | makeStaging
  | makeTree
  | makeItem (name : FileName)
  | makeDirectory (name : FileName) (place : Place)
  | writeFile (name : FileName) (place : Place) (payload : Bytes)
  | moveOut (name : FileName)
  | moveIn (name : FileName)
  | moveBack (name : FileName)
  /-- `shutil.rmtree`. -/
  | removeStaging
  deriving DecidableEq

namespace LibraryDisk

def entry (disk : LibraryDisk) (name : FileName) : Option SkillItem :=
  disk.library.bind fun library => library.items.get? name

def staged (disk : LibraryDisk) : Option SkillsTree := disk.staging.bind Staging.tree

def stagedItem (disk : LibraryDisk) (name : FileName) : Option SkillItem :=
  disk.staged.bind fun tree => tree.items.get? name

def moved (disk : LibraryDisk) : Option SkillItem := disk.staging.bind Staging.moved

def inLibrary (disk : LibraryDisk) (change : SkillsTree → SkillsTree) : LibraryDisk :=
  { disk with library := disk.library.map change }

def inStaging (disk : LibraryDisk) (change : Staging → Staging) : LibraryDisk :=
  { disk with staging := disk.staging.map change }

def inStaged (disk : LibraryDisk) (change : SkillsTree → SkillsTree) : LibraryDisk :=
  disk.inStaging fun staging => { staging with tree := staging.tree.map change }

/-- What is moved into the library, if there is anything. -/
def setEntry (disk : LibraryDisk) (name : FileName) (item : Option SkillItem) : LibraryDisk :=
  match item with
  | some item => disk.inLibrary fun library => library.set name item
  | none => disk

def apply (disk : LibraryDisk) : LibraryOp → LibraryDisk
  | .makeLibrary => { disk with library := some .empty }
  | .makeStaging => { disk with staging := some ⟨none, none⟩ }
  | .makeTree => disk.inStaging fun staging => { staging with tree := some .empty }
  | .makeItem name => disk.inStaged fun tree => tree.makeItem name
  | .makeDirectory name place =>
    disk.inStaged fun tree => tree.within name fun item => item.write place (.directory true)
  | .writeFile name place payload =>
    disk.inStaged fun tree => tree.within name fun item => item.write place (.file payload)
  | .moveOut name =>
    (disk.inStaging fun staging => { staging with moved := disk.entry name }).inLibrary
      fun library => library.without name
  | .moveIn name =>
    (disk.inStaged fun tree => tree.without name).setEntry name
      (disk.stagedItem name)
  | .moveBack name =>
    (disk.inStaging fun staging => { staging with moved := none }).setEntry name disk.moved
  | .removeStaging => { disk with staging := none }

def legal (disk : LibraryDisk) : LibraryOp → Bool
  | .makeLibrary => disk.library.isNone
  | .makeStaging => disk.staging.isNone
  | .makeTree => disk.staging.isSome && disk.staged.isNone
  | .makeItem name => disk.staged.isSome && (disk.stagedItem name).isNone
  | .makeDirectory name place => ((disk.stagedItem name).map (·.mayMake place)).getD false
  | .writeFile name place _ => ((disk.stagedItem name).map (·.mayPut place)).getD false
  | .moveOut name => (disk.entry name).isSome && disk.staging.isSome && disk.moved.isNone
  | .moveIn name => disk.library.isSome && (disk.entry name).isNone && (disk.stagedItem name).isSome
  | .moveBack name => disk.library.isSome && (disk.entry name).isNone && disk.moved.isSome
  | .removeStaging => disk.staging.isSome

/-- What is left of an operation that fails: a part of a file, or of the directory that was to be
removed. A rename and a `mkdir` leave nothing. -/
def torn (disk : LibraryDisk) : LibraryOp → LibraryDisk → Prop
  | .writeFile name place payload, left =>
    disk.legal (.writeFile name place payload) = true ∧
      ∃ n, left = disk.apply (.writeFile name place (payload.take n))
  | .removeStaging, left => left.library = disk.library
  | _, _ => False

end LibraryDisk

def libraryDevice : Storage LibraryDisk LibraryOp where
  apply := LibraryDisk.apply
  legal := LibraryDisk.legal
  torn := LibraryDisk.torn

abbrev LibraryProgram (α : Type) := Program LibraryDisk LibraryOp Failure α

/-- What the disk says. -/
def reading {α : Type} (read : LibraryDisk → Except Failure α) : LibraryProgram α :=
  Program.reading .os read

def act (op : LibraryOp) : LibraryProgram Unit := Program.performing .os op

section Policy

/- What the transferable boundary objects to in a text, and how the paths of the library and of a
staged tree are shown. -/
variable (violation : PyStr → PyStr) (libraryPath stagedPath : PyStr)

/-- `CURATED_MEMORY_SOURCE`. -/
def curatedMemorySource : PyStr := lit "curated"

/-- `_entry_name`. -/
def entryName (name : PyStr) : Except Failure FileName := do
  let entry ← validateSkillName violation name
  if entry.val = curatedMemorySource then
    throw (.value (lit "'curated' is the mount name of the curated tier and cannot be an entry name"))
  return entry

/-- `_entry_usage`. -/
def entryUsage (item : SkillItem) : Nat × Nat :=
  let sizes := item.below.entries.filterMap fun entry => entry.2.reads.map List.length
  (sizes.length, sizes.sum)

/-- `Path.exists`. -/
def isThere (item : Option SkillItem) : Bool :=
  match item.map SkillItem.node with
  | none => false
  | some (.link .nothing) => false
  | some _ => true

/-- `Path.is_dir`. -/
def isDirectory (item : Option SkillItem) : Bool :=
  match item.map SkillItem.node with
  | some (.directory _) => true
  | some (.link .directory) => true
  | _ => false

/-- `_assert_library_budget`. -/
def assertLibraryBudget (library : Option SkillsTree) (entry : Option SkillItem)
    (staged : SkillsStats) (replacing : Bool) : Except Failure Unit := do
  let current ← validateSkillsTree violation false libraryPath library
  let replaced := if replacing then (entry.map entryUsage).getD (0, 0) else (0, 0)
  if maxSkills < current.count + if replacing then 0 else 1 then
    throw (.value (lit "curated library exceeds " ++ shown maxSkills ++ lit " entries"))
  if (maxSkillsFiles : Int) < (current.files : Int) - replaced.1 + staged.files then
    throw (.value (lit "curated library exceeds " ++ shown maxSkillsFiles ++ lit " files"))
  if (maxSkillsBytes : Int) < (current.bytes : Int) - replaced.2 + staged.bytes then
    throw (.value (lit "curated library exceeds " ++ shown maxSkillsBytes ++ lit " bytes"))

/-- The files of an entry, written one after the other where it is staged. -/
def stageFiles (name : FileName) : List (PyStr × Bytes) → LibraryProgram Unit
  | [] => pure ()
  | (relative, payload) :: rest => do
    let place ← Program.ofExcept (validateSkillPath violation relative)
    makeParents (fun disk place => (disk.stagedItem name).bind fun item => item.nodes.get? place)
      (LibraryOp.makeDirectory name) [] place.dropLast
    act (.writeFile name place payload)
    stageFiles name rest

/-- The new entry moves in; where it cannot, the old one moves back. -/
def moveEntryIn (name : FileName) : LibraryProgram Unit :=
  (act (.moveIn name)).handle fun error => do
    let replaced ← reading fun disk => .ok disk.moved.isSome
    if replaced then
      act (.moveBack name)
    throw error

/-- The old entry moves out of the library before the new one moves in. -/
def swapEntry (name : FileName) : LibraryProgram Unit := do
  let replacing ← reading fun disk => .ok (isDirectory (disk.entry name))
  if replacing then
    act (.moveOut name)
  moveEntryIn name

/-- The entry as `_install_entry` stages and checks it. The modes that `chmod_tree` sets are those
that new files and directories have, and it raises nothing. -/
def stageEntry (name : FileName) (files : List (PyStr × Bytes)) : LibraryProgram Unit := do
  act .makeTree
  act (.makeItem name)
  stageFiles violation name files
  let staged ← reading fun disk => validateSkillsTree violation true stagedPath disk.staged
  reading fun disk => assertLibraryBudget violation libraryPath disk.library
    (disk.entry name) staged (isDirectory (disk.entry name))

/-- `shutil.rmtree(staging, ignore_errors=True)`. -/
def removeStaging : LibraryProgram Unit := .op .removeStaging (.done ()) (.done ())

/-- Whether `_install_entry` goes on, by what is in the library under the name. -/
def checkDestination (there : Option SkillItem) (name : FileName) (replace : Bool) :
    Except Failure Unit := do
  if isThere there && !replace then
    throw (.fileExists (lit "curated memory entry already exists: " ++ name.val))
  if replace && !isDirectory there then
    throw (.key (lit "unknown curated memory entry: " ++ name.val))

/-- `library.mkdir(parents=True, exist_ok=True)`. -/
def makeLibrary : LibraryProgram Unit := do
  let missing ← reading fun disk => .ok disk.library.isNone
  if missing then
    act .makeLibrary

/-- `_install_entry`. -/
def installEntry (name : FileName) (files : List (PyStr × Bytes)) (replace : Bool) :
    LibraryProgram Unit := do
  reading fun disk => checkDestination (disk.entry name) name replace
  makeLibrary
  act .makeStaging
  Program.andFinally (do
    stageEntry violation libraryPath stagedPath name files
    swapEntry name) removeStaging

/-- What a write answers, apart from the library it lists. -/
structure WriteResult where
  name : FileName
  action : PyStr
  deriving DecidableEq

/-- `str(content).encode("utf-8")`. -/
def encodeContent (content : PyStr) : Except Failure Bytes :=
  match CodePoint.encode content with
  | some bytes => .ok bytes
  | none => .error .unicodeEncode

/-- `create_curated_entry`. -/
def createCuratedEntry (name content : PyStr) : LibraryProgram WriteResult := do
  let entry ← Program.ofExcept (entryName violation name)
  let bytes ← Program.ofExcept (encodeContent content)
  installEntry violation libraryPath stagedPath entry [(skillFilename.val, bytes)] false
  return ⟨entry, lit "created"⟩

/-- The files of an entry with their paths: `sorted(item.rglob("*"))`, of which those that are
files. -/
def entryFiles (item : SkillItem) : Dict PyStr Bytes :=
  .ofList ((item.below.entries.insertionSort fun a b =>
    a.1.map (·.val.map Search.ordinal) ≤ b.1.map (·.val.map Search.ordinal)).filterMap
      fun entry => entry.2.reads.map (entry.1.text, ·))

/-- An entry that is a directory, and no link to one. -/
def directoryEntry (disk : LibraryDisk) (name : FileName) : Except Failure SkillItem :=
  match disk.entry name with
  | none => .error (.key (lit "unknown curated memory entry: " ++ name.val))
  | some item =>
    match item.node with
    | .directory _ => .ok item
    | _ => .error (.key (lit "unknown curated memory entry: " ++ name.val))

/-- `update_curated_entry`. -/
def updateCuratedEntry (name content : PyStr) : LibraryProgram WriteResult := do
  let entry ← Program.ofExcept (entryName violation name)
  let item ← reading fun disk => directoryEntry disk entry
  let files ← reading fun _ => .ok (entryFiles item)
  let bytes ← Program.ofExcept (encodeContent content)
  installEntry violation libraryPath stagedPath entry
    (files.set skillFilename.val bytes).entries true
  return ⟨entry, lit "updated"⟩

/-- `delete_curated_entry`. -/
def deleteCuratedEntry (name : PyStr) : LibraryProgram WriteResult := do
  let entry ← Program.ofExcept (validateSkillName violation name)
  let _ ← reading fun disk => directoryEntry disk entry
  act .makeStaging
  (act (.moveOut entry)).andFinally removeStaging
  return ⟨entry, lit "deleted"⟩

/-- A write to the library. -/
inductive CuratedWrite where
  | create (name content : PyStr)
  | update (name content : PyStr)
  | delete (name : PyStr)

def CuratedWrite.name : CuratedWrite → PyStr
  | create name _ => name
  | update name _ => name
  | delete name => name

def CuratedWrite.run : CuratedWrite → LibraryProgram WriteResult
  | create name content => createCuratedEntry violation libraryPath stagedPath name content
  | update name content => updateCuratedEntry violation libraryPath stagedPath name content
  | delete name => deleteCuratedEntry violation name

end Policy

end AutoTrade.CuratedLibrary
