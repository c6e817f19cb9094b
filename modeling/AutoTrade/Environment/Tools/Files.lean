import AutoTrade.Common.CodePoint
import AutoTrade.Common.Json
import AutoTrade.Common.Lines
import AutoTrade.Misc.Occurrences

/-!
# Writing and editing workspace files

`write_file` and `edit_file` of `environment/tools/files.py`, over files as bytes with the modes
that let them be read and written. Where a path leads is decided by the workspace; here it is what
`_resolve` answers, a path or a refusal.
-/

namespace AutoTrade.FileTools

open Utf8 (Bytes)
open CodePoint (ofText)

/-- The `error_type` of a `ToolError` these tools raise. -/
inductive ErrorType where
  | schemaError
  | pathError
  | notFound
  | readonly
  | notUtf8
  | stale
  | ambiguous
  | tooLarge
  deriving DecidableEq

structure ToolError where
  message : Text
  errorType : ErrorType
  blockedTarget : Option Text := none
  retryHint : Option Text := none
  /-- `details["matches"]`. -/
  matches' : Option Nat := none
  deriving DecidableEq

/-- What a tool raises. -/
inductive Raised where
  | tool (error : ToolError)
  | os
  | unicodeEncode
  deriving DecidableEq

/-- A path: its bytes if there is a file, and whether it may be opened for reading and for writing.
Where there is no file, to open it for writing is to create it. -/
structure File where
  bytes : Option Bytes
  readable : Bool
  writable : Bool
  deriving DecidableEq

/-- `MAX_WRITE_CHARS`. -/
def maxWriteChars : Nat := 200000

/-- `readonly_copy_hint`. -/
def readonlyCopyHint (target : Text) : Text :=
  "run shell argv [\"chmod\", \"-R\", \"a+w\", \"".toList ++ target ++
    "\"] and retry: a tree copied from steps/ or a registered artifact keeps that ".toList ++
    "snapshot's read-only mode, and the copy belongs to the sandbox user, so u+w alone does ".toList ++
    "not give the typed writers access".toList

/-- The refusal of a file that may not be written. -/
def notWritable (relative : Text) : ToolError where
  message := relative ++ " is not writable".toList
  errorType := .readonly
  blockedTarget := some relative
  retryHint := some (readonlyCopyHint (relative.takeWhile (· ≠ '/')))

/-- `target.write_text(content, encoding="utf-8")` in `_write`: the file is opened, and by that
emptied, before the content is encoded. -/
def writeText (relative : Text) (file : File) (content : PyStr) : Except Raised Bytes × File :=
  if file.writable then
    match CodePoint.encode content with
    | some bytes => (.ok bytes, { file with bytes := some bytes })
    | none => (.error .unicodeEncode, { file with bytes := some [] })
  else (.error (.tool (notWritable relative)), file)

section Tools

/- The paths of files, how they are shown, what `_resolve` makes of a path and a root argument, and
what a decoding error says of bytes: its reason, and where it is. -/
variable {P : Type} [DecidableEq P] (relative : P → Text)
  (resolve : PyStr → Option Text → Except ToolError P) (undecodable : Bytes → Text)

/-- The files under the workspace, by where they really are. -/
abbrev Files (P : Type) := P → File

/-- `_write`, over every file. -/
def write (files : Files P) (target : P) (content : PyStr) : Except Raised Bytes × Files P :=
  let (written, file) := writeText (relative target) (files target) content
  (written, Function.update files target file)

structure WriteCall where
  path : PyStr
  root : Option Text
  content : PyStr

/-- The value of a `write_file` that succeeds. -/
structure WriteValue where
  path : Text
  created : Bool
  chars : Nat
  bytesWritten : Nat

def contentTooLarge : ToolError where
  message := "content exceeds 200000 chars".toList
  errorType := .tooLarge

/-- Where a `write_file` goes to, before anything is written. -/
def writeTarget (call : WriteCall) : Except Raised P :=
  if maxWriteChars < call.content.length then .error (.tool contentTooLarge)
  else (resolve call.path call.root).mapError .tool

/-- `WriteFileTool.invoke`. -/
def writeFile (files : Files P) (call : WriteCall) : Except Raised WriteValue × Files P :=
  match writeTarget resolve call with
  | .error raised => (.error raised, files)
  | .ok target =>
    let (written, after) := write relative files target call.content
    (written.map fun bytes =>
      ⟨relative target, (files target).bytes.isNone, call.content.length, bytes.length⟩, after)

/-- The arguments of `edit_file`; its schema gives `old_text` a `minLength` of one. -/
structure EditCall where
  path : PyStr
  root : Option Text
  oldText : PyStr
  newText : PyStr
  replaceAll : Bool
  old_ne_nil : oldText ≠ []

structure EditValue where
  path : Text
  replacements : Nat
  bytesWritten : Nat

def invalidUtf8 (relative : Text) (bytes : Bytes) : ToolError where
  message := relative ++ " is not valid UTF-8 text, so editing it would ".toList ++
    "corrupt the bytes this edit does not touch (".toList ++ undecodable bytes ++ ")".toList
  errorType := .notUtf8
  blockedTarget := some relative
  retryHint := some ("edit_file rewrites UTF-8 text only: change this file with ".toList ++
    "shell (python/sed), or replace it whole with write_file".toList)

/-- `target.read_text(encoding="utf-8")`: decoded, and then with universal newlines. -/
def readText (relative : Text) (file : File) : Except Raised Text :=
  match file.bytes, file.readable with
  | some bytes, true =>
    match CodePoint.decode bytes with
    | some t => .ok (universalNewlines t)
    | none => .error (.tool (invalidUtf8 undecodable relative bytes))
  | _, _ => .error .os

def notFoundInFile : ToolError where
  message := "old_text not found in file".toList
  errorType := .stale
  retryHint := some "re-read the file; old_text must match the current content exactly".toList

def matchedTimes (count : Nat) : ToolError where
  message := "old_text matched ".toList ++ JsonNumber.digitsOf count ++
    " times; pass replace_all=true or make it unique".toList
  errorType := .ambiguous
  matches' := some count

def resultTooLarge : ToolError where
  message := "resulting file exceeds 200000 chars".toList
  errorType := .tooLarge

/-- `current.replace(old, new)`, or of the first occurrence alone. -/
def EditCall.replace (call : EditCall) (current : PyStr) : PyStr :=
  if call.replaceAll then Occurrences.replaceAll call.oldText call.newText current
  else Occurrences.replaceFirst call.oldText call.newText current

/-- `current.count(old)`. -/
def EditCall.count (call : EditCall) (current : PyStr) : Nat :=
  Occurrences.count call.oldText current

/-- The edited text and the number of replacements. -/
def EditCall.edit (call : EditCall) (current : PyStr) : Except Raised (PyStr × Nat) :=
  if call.count current = 0 then .error (.tool notFoundInFile)
  else if 1 < call.count current ∧ call.replaceAll = false then
    .error (.tool (matchedTimes (call.count current)))
  else if maxWriteChars < (call.replace current).length then .error (.tool resultTooLarge)
  else .ok (call.replace current, if call.replaceAll then call.count current else 1)

/-- What an `edit_file` is about to write, and where. -/
def editTarget (files : Files P) (call : EditCall) : Except Raised (P × PyStr × Nat) := do
  let target ← (resolve call.path call.root).mapError Raised.tool
  let current ← readText undecodable (relative target) (files target)
  let edited ← call.edit (ofText current)
  pure (target, edited)

/-- `EditFileTool.invoke`. -/
def editFile (files : Files P) (call : EditCall) : Except Raised EditValue × Files P :=
  match editTarget relative resolve undecodable files call with
  | .error raised => (.error raised, files)
  | .ok (target, updated, count) =>
    let (written, after) := write relative files target updated
    (written.map fun bytes => ⟨relative target, count, bytes.length⟩, after)

end Tools

end AutoTrade.FileTools
