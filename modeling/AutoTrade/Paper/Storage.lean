import AutoTrade.Common.JsonObject
import AutoTrade.Common.Utf8

/-!
# The journals on disk

`autotrade/paper/storage.py`: a journal is a file of JSON lines that rows are appended to
once each. A crash in the middle of an append leaves the first bytes of what was being
written. A file that is missing reads as an empty one does.
-/

namespace AutoTrade

namespace Storage

open Json JsonLines Utf8

/-- One line of `read_jsonl`: the rows so far and the lines skipped. -/
def readLine (read : List JsonObject × Nat) (line : Text) : List JsonObject × Nat :=
  let line := stripText line
  if line = [] then read
  else
    match loadObject line with
    | some fields => (read.1 ++ [fields], read.2)
    | none => (read.1, read.2 + 1)

def readLines (lines : List Text) : List JsonObject × Nat := lines.foldl readLine ([], 0)

/-- `read_jsonl`: the rows of a file, and how many lines of it are not rows. -/
def readJsonl (file : Bytes) : List JsonObject × Nat :=
  readLines (splitLines (universalNewlines (decode file)))

/-- A payload without a text for `event_id`. -/
inductive StorageError where
  | noIdentity
  deriving DecidableEq

/-- `payload.get("event_id")`, where it is a text and filled. -/
def eventId (payload : JsonObject) : Except StorageError Text :=
  match payload.field "event_id" with
  | some (str identity) => if identity = [] then .error .noIdentity else .ok identity
  | _ => .error .noIdentity

/-- A row of the file has the identity. -/
def present (file : Bytes) (identity : Text) : Bool :=
  (readJsonl file).1.any fun row => row.field "event_id" = some (str identity)

/-- The newline written first where the file does not end with one. -/
def healing (file : Bytes) : Bytes :=
  if file.getLast?.all (· = 10) then [] else [10]

/-- `encoded` without its newline. -/
def rowBytes (payload : JsonObject) : Bytes := encode (dumps (obj payload))

/-- What one append writes, nothing where the row is there. -/
def pending (file : Bytes) (payload : JsonObject) : Except StorageError Bytes :=
  (eventId payload).map fun identity =>
    if present file identity then [] else healing file ++ rowBytes payload ++ [10]

/-- `append_jsonl_once`. -/
def appendJsonlOnce (file : Bytes) (payload : JsonObject) : Except StorageError Bytes :=
  (pending file payload).map fun written => file ++ written

/-- The file an append leaves that a crash ends after `n` bytes. -/
def tornAppend (payload : JsonObject) (file : Bytes) (n : Nat) : Except StorageError Bytes :=
  (pending file payload).map fun written => file ++ written.take n

/-- An append retried after the crashes that end it, each after so many bytes. -/
structure Attempt where
  payload : JsonObject
  tears : List Nat := []

def attempt (file : Bytes) (a : Attempt) : Except StorageError Bytes := do
  let torn ← a.tears.foldlM (tornAppend a.payload) file
  appendJsonlOnce torn a.payload

/-- The file the attempts leave, from none. -/
def writeAll (attempts : List Attempt) : Except StorageError Bytes := attempts.foldlM attempt []

end Storage

end AutoTrade
