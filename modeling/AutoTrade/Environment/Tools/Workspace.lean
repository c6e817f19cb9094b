import AutoTrade.Environment.Tools.Files
import AutoTrade.Environment.Tools.Search
import AutoTrade.Environment.Llm.Replies
import AutoTrade.Misc.FileTree

/-!
# The path boundary of the file tools

`SafeWorkspace` of `environment/tools/workspace.py`, the writing tools of
`environment/tools/files.py` over it, and the roots of `environment/tools/search.py`, over a tree of
files with symbolic links. What a tool opens is where the system gets to; what is checked before is
what a path is spelled like and what a reading of the links says.
-/

namespace AutoTrade.Workspace

open PyValue (lit)
open Tools (PyException raise)
open FileTree (Tree Place Step Target Kind Errno stepsTo realpath maxLinks)
open Search (partsOf startsWithDot pathText slash pathError validateRelativePattern)
open FileTools (WriteCall EditCall WriteValue EditValue)

/-- A file: its bytes, and whether it may be opened for reading and for writing. -/
structure RegularFile where
  bytes : Utf8.Bytes
  readable : Bool
  writable : Bool

abbrev Disk := Tree PyStr RegularFile

/-- What a tool raises: on its own, from the system, or from a path that goes in circles. -/
inductive Failure where
  | raised (exc : PyException)
  | os (errno : Errno)
  | tool (raised : FileTools.Raised)
  | circular

/-- How a call ends, and the files that it opened for writing and by that emptied. -/
structure Outcome (α : Type) where
  result : Except Failure α
  disk : Disk
  written : List (Place PyStr) := []

def stepOf (part : PyStr) : Step PyStr :=
  if part = [] ∨ part = lit "." then .stay else if part = lit ".." then .up else .down part

/-- What a link says, of the text that is in it. -/
def targetOf (text : PyStr) : Target PyStr where
  absolute := text.head? = some slash
  steps := (text.splitOn slash).map stepOf

/-- `os.fsencode` does not refuse the name, nor does the system. -/
def fsEncodable (name : PyStr) : Bool :=
  name.all fun point =>
    match point with
    | .char c => decide (c.toNat ≠ 0)
    | .surrogate offset => decide (0x480 ≤ offset.val ∧ offset.val < 0x500)

def toolError (errorType message : PyStr) (blocked : Option PyStr) : Failure :=
  .raised (raise "ToolError".toList (.toolError { errorType, blockedTarget := blocked }) message)

def osNameError : Failure :=
  .raised (raise "ValueError".toList .osErrorOrValueError (lit "embedded null byte"))

section Paths

/- What `Path.resolve` makes of a path that goes in circles, which is not the same in every version
of the language; where something may be created; how a relative path is shown; and Python's
`repr`. -/
variable (circular : Place PyStr → Except Failure (Place PyStr)) (mayCreate : Place PyStr → Bool)
  (shown : PyStr → Text) (repr : PyStr → PyStr)

/-- Where a path really is. -/
def realPlace (disk : Disk) (path : Place PyStr) : Option (Place PyStr) :=
  realpath disk.links [] [] (stepsTo path)

/-- `Path.resolve(strict=False)`. -/
def resolvePath (disk : Disk) (path : Place PyStr) : Except Failure (Place PyStr) :=
  match realPlace disk path with
  | some place => .ok place
  | none => circular path

/-- Where `stat` gets to. -/
def stat (disk : Disk) (path : Place PyStr) : Except Errno (Place PyStr) :=
  disk.walk false maxLinks [] (stepsTo path)

/-- `Path.exists`. -/
def pathExists (disk : Disk) (path : Place PyStr) : Bool := (stat disk path).isOk

/-- `Path.is_file`. -/
def isFile (disk : Disk) (path : Place PyStr) : Bool :=
  match stat disk path with
  | .ok place => (disk.fileAt place).isSome
  | .error _ => false

/-- The root of a workspace: a directory, by its own place. -/
structure SafeWorkspace (disk : Disk) where
  root : Place PyStr
  settled : FileTree.Settled disk.links root
  directory : disk.dirAt root = true

/-- `SafeWorkspace.resolve`, from its checks of the text on. -/
def resolve (disk : Disk) (root : Place PyStr) (relative : PyStr) (mustExist : Bool)
    (directory : Option Bool) : Except Failure (Place PyStr) := do
  if (Llm.strip relative).isEmpty then
    throw (toolError (lit "schema_error") (lit "path must be a non-empty relative path") none)
  if relative = lit "." then
    if directory = some false then
      throw (toolError (lit "path_error") (lit "workspace root is not a file") relative)
    return root
  if relative.head? = some slash ∨ lit ".." ∈ partsOf relative then
    throw (toolError (lit "path_error") (lit "path must stay within the workspace") relative)
  if (partsOf relative).any startsWithDot then
    throw (toolError (lit "path_error") (lit "hidden workspace paths are not available") relative)
  let candidate := root ++ partsOf relative
  if !(partsOf relative).all fsEncodable then
    throw osNameError
  let resolved ← resolvePath circular disk candidate
  if !root.isPrefixOf resolved then
    throw (toolError (lit "path_error") (lit "path escapes the workspace") relative)
  if mustExist && !pathExists disk candidate then
    throw (toolError (lit "not_found") (lit "path does not exist: " ++ relative) relative)
  if pathExists disk candidate then
    -- what is there is found strictly or not
    let actual ← resolvePath circular disk candidate
    if !root.isPrefixOf actual then
      throw (toolError (lit "path_error") (lit "path escapes the workspace through a symlink")
        relative)
    if directory = some true && !disk.isDir actual then
      throw (toolError (lit "path_error") (lit "path is not a directory: " ++ relative) relative)
    if directory = some false && !isFile disk actual then
      throw (toolError (lit "path_error") (lit "path is not a file: " ++ relative) relative)
    return actual
  let parent ← resolvePath circular disk candidate.dropLast
  if !root.isPrefixOf parent then
    throw (toolError (lit "path_error") (lit "path parent escapes the workspace") relative)
  if directory = some true then
    throw (toolError (lit "not_found") (lit "directory does not exist: " ++ relative) relative)
  return candidate

/-- `as_posix` of a relative path. -/
def asPosix (parts : Place PyStr) : PyStr := if parts = [] then lit "." else pathText parts

/-- `SafeWorkspace.relative`. -/
def relative (disk : Disk) (root path : Place PyStr) : Except Failure PyStr := do
  let place ← resolvePath circular disk path
  if root.isPrefixOf place then return asPosix (place.drop root.length)
  else throw (.raised (raise "ValueError".toList .osErrorOrValueError
    (lit "path is not in the subpath of the workspace")))

def skillsDir : PyStr := lit "skills"

def outputDir : PyStr := lit "output"

/-- `READONLY_FILES`. -/
def readonlyFiles : List PyStr := [lit "README.md"]

/-- `text.removeprefix(begin)`. -/
def removePrefix (start text : PyStr) : PyStr :=
  if start.isPrefixOf text then text.drop start.length else text

/-- The path that `_resolve` looks up: without `workspace/` where there is no such directory, and
below the root that is named. -/
def addressed (disk : Disk) (root : Place PyStr) (path : PyStr) (rootName : Option Text) : PyStr :=
  let path :=
    if (lit "workspace/").isPrefixOf path && !disk.isDir (root ++ [lit "workspace"]) then
      removePrefix (lit "workspace/") path
    else path
  match rootName with
  | none => path
  | some name =>
    let name := CodePoint.ofText name
    if name ≠ lit "workspace" ∧ ¬ (path = name ∨ (name ++ lit "/").isPrefixOf path) then
      name ++ lit "/" ++ path
    else path

/-- `_WorkspaceWriteTool._resolve`. -/
def resolveTarget (disk : Disk) (root : Place PyStr) (path : PyStr) (rootName : Option Text)
    (mustExist : Bool) : Except Failure (Place PyStr) := do
  let path := addressed disk root path rootName
  let target ← resolve circular disk root path mustExist (some false)
  let text ← relative circular disk root target
  if text = skillsDir ∨ (skillsDir ++ lit "/").isPrefixOf text then
    throw (toolError (lit "readonly")
      (lit "skills/ may only be changed with write_skill or delete_skill") path)
  if text ∈ readonlyFiles ∨ removePrefix (outputDir ++ lit "/") text ∈ readonlyFiles then
    throw (toolError (lit "readonly") (text ++ lit " is read-only") path)
  return target

/-- A file as it is opened; where there is none, it is created. -/
def opened (disk : Disk) (place : Place PyStr) : FileTools.File :=
  match disk.fileAt place with
  | some file => ⟨some file.bytes, file.readable, file.writable⟩
  | none => ⟨none, true, !disk.free place || mayCreate place⟩

/-- `target.write_text(content, encoding="utf-8")`: a device takes what is written to it. -/
def writeText (disk : Disk) (target : Place PyStr) (text content : PyStr) :
    Outcome Utf8.Bytes :=
  match disk.openWrite target with
  | .error errno => { result := .error (.os errno), disk }
  | .ok place =>
    let file := opened mayCreate disk place
    let (written, after) := FileTools.writeText (shown text) file content
    { result := written.mapError .tool
      disk :=
        match after.bytes with
        | some bytes => disk.putFile place ⟨bytes, file.readable, file.writable⟩
        | none => disk
      written := if file.writable then [place] else [] }

/-- `_write`; the modes of what is made are left out. -/
def write (disk : Disk) (root target : Place PyStr) (content : PyStr) : Outcome Utf8.Bytes :=
  match relative circular disk root target with
  | .error failure => { result := .error failure, disk }
  | .ok text =>
    match disk.mkdirs mayCreate target.dropLast with
    | (.error .access, after) =>
      { result := .error (.tool (.tool (FileTools.notWritable (shown text)))), disk := after }
    | (.error errno, after) => { result := .error (.os errno), disk := after }
    | (.ok (), after) => writeText mayCreate shown after target text content

/-- `WriteFileTool.invoke`. -/
def writeFile (disk : Disk) (root : Place PyStr) (call : WriteCall) : Outcome WriteValue :=
  if FileTools.maxWriteChars < call.content.length then
    { result := .error (.tool (.tool FileTools.contentTooLarge)), disk }
  else
    match resolveTarget circular disk root call.path call.root false with
    | .error failure => { result := .error failure, disk }
    | .ok target =>
      let outcome := write circular mayCreate shown disk root target call.content
      { outcome with
        result := do
          let bytes ← outcome.result
          let text ← relative circular outcome.disk root target
          pure ⟨shown text, !pathExists disk target, call.content.length, bytes.length⟩ }

/-- What `target.read_text` reads. -/
def readText (undecodable : Utf8.Bytes → Text) (disk : Disk) (target : Place PyStr)
    (text : PyStr) : Except Failure Text :=
  match stat disk target with
  | .error errno => .error (.os errno)
  | .ok place =>
    (FileTools.readText undecodable (shown text) (opened mayCreate disk place)).mapError .tool

/-- What an `edit_file` is about to write, and where. -/
def editTarget (undecodable : Utf8.Bytes → Text) (disk : Disk) (root : Place PyStr)
    (call : EditCall) : Except Failure (Place PyStr × PyStr × PyStr × Nat) := do
  let target ← resolveTarget circular disk root call.path call.root true
  let text ← relative circular disk root target
  let current ← readText mayCreate shown undecodable disk target text
  let (updated, count) ← (call.edit (CodePoint.ofText current)).mapError Failure.tool
  pure (target, text, updated, count)

/-- `EditFileTool.invoke`. -/
def editFile (undecodable : Utf8.Bytes → Text) (disk : Disk) (root : Place PyStr)
    (call : EditCall) : Outcome EditValue :=
  match editTarget circular mayCreate shown undecodable disk root call with
  | .error failure => { result := .error failure, disk }
  | .ok (target, text, updated, count) =>
    let outcome := write circular mayCreate shown disk root target updated
    { outcome with result := outcome.result.map fun bytes => ⟨shown text, count, bytes.length⟩ }

/-- The roots besides those in the workspace, by name. -/
abbrev Layout := Text → Option (Place PyStr)

/-- `SearchRoots.base`. -/
def base (layout : Layout) (root : Place PyStr) (name : Text) : Except Failure (Place PyStr) :=
  if name = "workspace".toList then .ok root
  else if name = "output".toList then .ok (root ++ [outputDir])
  else if name = "models".toList then .ok (root ++ [lit "models"])
  else
    match layout name with
    | some path => .ok path
    | none => .error (toolError (lit "path_error")
        (lit "unsupported search root: " ++ CodePoint.ofText name) (CodePoint.ofText name))

/-- `_assert_inside`. -/
def assertInside (disk : Disk) (path root : Place PyStr) (display : PyStr) :
    Except Failure Unit := do
  let place ← resolvePath circular disk path
  let root ← resolvePath circular disk root
  if !root.isPrefixOf place then
    throw (toolError (lit "path_error")
      (lit "path escapes the selected search root: " ++ repr display) display)

/-- `_safe_subpath`. -/
def safeSubpath (disk : Disk) (base : Place PyStr) (path : PyStr) :
    Except Failure (Place PyStr) := do
  let baseResolved ← resolvePath circular disk base
  if path = [] then return baseResolved
  if path.head? = some slash then
    throw (toolError (lit "path_error") (lit "search path must be relative to the selected root")
      path)
  if lit ".." ∈ partsOf path then
    throw (toolError (lit "path_error") (lit "search path must not contain '..'") path)
  if (partsOf path).any startsWithDot then
    throw (toolError (lit "path_error") (lit "search path must not contain hidden path components")
      path)
  if !(partsOf path).all fsEncodable then
    throw osNameError
  let target ← resolvePath circular disk (baseResolved ++ partsOf path)
  assertInside circular repr disk target baseResolved path
  return target

/-- `SearchRoots.resolve`: the target, and the path that is accepted. -/
def resolveSearch (disk : Disk) (layout : Layout) (root : Place PyStr) (name : Text)
    (path : PyStr) : Except Failure (Place PyStr × PyStr) := do
  let base ← base layout root name
  if !disk.isDir base then
    throw (toolError (lit "not_found")
      (lit "search root is not available in this session: " ++ CodePoint.ofText name)
      (CodePoint.ofText name))
  let target ← safeSubpath circular repr disk base path
  if pathExists disk target then return (target, path)
  let missing := toolError (lit "not_found") (lit "search path does not exist under root " ++
    repr (CodePoint.ofText name) ++ lit ": " ++ repr path) none
  match partsOf path with
  | [] => throw missing
  | first :: rest =>
    if first = CodePoint.ofText name ∨ first = lit "workspace" ∧ rest ≠ [] then
      let candidate ← safeSubpath circular repr disk base (pathText rest)
      if pathExists disk candidate then return (candidate, pathText rest)
    throw missing

/-- `MAX_READ_BYTES`. -/
def maxReadBytes : Nat := 10 * 1024 * 1024

/-- The file that a `read_file` reads; what the system says of a failure is left out. -/
def readFile (disk : Disk) (layout : Layout) (root : Place PyStr) (name : Text) (path : PyStr) :
    Except Failure (Place PyStr) := do
  let (target, path) ← resolveSearch circular repr disk layout root name path
  if disk.isDir target then
    throw (toolError (lit "path_error") (lit "read path is a directory, not a file, under root " ++
      repr (CodePoint.ofText name) ++ lit ": " ++ repr path) none)
  match stat disk target with
  | .error errno => throw (.os errno)
  | .ok place =>
    let size := ((opened mayCreate disk place).bytes.getD []).length
    if maxReadBytes < size then
      throw (toolError (lit "too_large") (lit "file is " ++
        CodePoint.ofText (JsonNumber.digitsOf size) ++
        lit " bytes, over the 10485760-byte read cap, under root " ++
        repr (CodePoint.ofText name) ++ lit ": " ++ repr path) path)
    if !(opened mayCreate disk place).readable then
      throw (.os .access)
    return place

/-- The files that a `grep` reads: `ripgrep` is run in a directory, on a name in it or on the
directory itself. -/
def grep (ripgrep : Place PyStr → Step PyStr → List (Place PyStr)) (disk : Disk) (layout : Layout)
    (root : Place PyStr) (name : Text) (path : PyStr) : Except Failure (List (Place PyStr)) := do
  let (target, _) ← resolveSearch circular repr disk layout root name path
  if isFile disk target then
    match target.getLast? with
    | some file => return ripgrep target.dropLast (.down file)
    | none => return ripgrep target .stay
  return ripgrep target .stay

/-- The directories that `_iter_glob_matches` lists; it opens nothing else. -/
inductive Listed (disk : Disk) (target : Place PyStr) : Place PyStr → Prop where
  | target : Listed disk target target
  | subdir {directory : Place PyStr} {name : PyStr} (listed : Listed disk target directory)
      (plain : disk.links.get? (directory ++ [name]) = none)
      (inside : disk.dirAt (directory ++ [name]) = true) : Listed disk target (directory ++ [name])

/-- The directories that a `glob` lists. -/
def Lists (disk : Disk) (layout : Layout) (root : Place PyStr) (name : Text) (path : PyStr)
    (place : Place PyStr) : Prop :=
  ∃ target accepted start, resolveSearch circular repr disk layout root name path =
    .ok (target, accepted) ∧ stat disk target = .ok start ∧ Listed disk start place

end Paths

end AutoTrade.Workspace
