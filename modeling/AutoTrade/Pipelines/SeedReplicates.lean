import AutoTrade.Common.SourceLines
import AutoTrade.Environment.Artifacts

/-!
# Seed replicates

`autotrade/pipelines/experiment.py`, `one_line_change` and `seed_change`: how a revision that
draws another seed is told from the nominee. What Unicode takes for a word and for a digit is a
table that agrees with ASCII where it must.
-/

namespace AutoTrade

namespace SeedReplicates

open Artifacts
open Utf8 (Bytes)

/-- The characters `\w` takes, and the values of those `\d` takes. -/
structure CharTables where
  word : Char → Bool
  decimal : Char → Option Nat
  word_ascii : ∀ c : Char, c.toNat < 128 → word c = (c.isAlphanum || c = '_')
  decimal_ascii : ∀ c : Char, c.toNat < 128 →
    decimal c = if c.isDigit then some (c.toNat - '0'.toNat) else none
  word_of_decimal : ∀ c, (decimal c).isSome → word c = true
  not_word_of_space : ∀ c, isSpace c = true → word c = false

/-- How far `_SEED_LINE` has read a line, with the name and the number it has read. -/
inductive Scan where
  | lead
  | name (n : Text)
  | named (n : Text)
  | colon (n : Text)
  | int1 (n : Text)
  | int2 (n : Text)
  | int3 (n : Text)
  | assigned (n : Text)
  | signed (n v : Text)
  | value (n v : Text)
  | done (n v : Text)
  | comment (n v : Text)
  deriving DecidableEq

/-- `[A-Za-z_]`. -/
def isNameStart (c : Char) : Bool := c.isAlpha || c = '_'

variable (tables : CharTables)

/-- One more character of `\s*([A-Za-z_]\w*)\s*(?::\s*int\s*)?=\s*([+-]?\d+)\s*(?:#.*)?`. -/
def Scan.step : Scan → Char → Option Scan
  | lead, c => if isSpace c then some lead else if isNameStart c then some (name [c]) else none
  | name n, c =>
    if tables.word c then some (name (n ++ [c]))
    else if isSpace c then some (named n)
    else if c = ':' then some (colon n)
    else if c = '=' then some (assigned n)
    else none
  | named n, c =>
    if isSpace c then some (named n)
    else if c = ':' then some (colon n)
    else if c = '=' then some (assigned n)
    else none
  | colon n, c =>
    if isSpace c then some (colon n) else if c = 'i' then some (int1 n) else none
  | int1 n, c => if c = 'n' then some (int2 n) else none
  | int2 n, c => if c = 't' then some (int3 n) else none
  | int3 n, c =>
    if isSpace c then some (int3 n) else if c = '=' then some (assigned n) else none
  | assigned n, c =>
    if isSpace c then some (assigned n)
    else if c = '+' ∨ c = '-' then some (signed n [c])
    else if (tables.decimal c).isSome then some (value n [c])
    else none
  | signed n v, c => if (tables.decimal c).isSome then some (value n (v ++ [c])) else none
  | value n v, c =>
    if (tables.decimal c).isSome then some (value n (v ++ [c]))
    else if isSpace c then some (done n v)
    else if c = '#' then some (comment n v)
    else none
  | done n v, c =>
    if isSpace c then some (done n v) else if c = '#' then some (comment n v) else none
  | comment n v, c => if c = '\n' then none else some (comment n v)

/-- What the line read so far assigns, where it may end. -/
def Scan.assigns : Scan → Option (Text × Text)
  | value n v | done n v | comment n v => some (n, v)
  | _ => none

/-- `_SEED_LINE.fullmatch`: the name and the number. -/
def seedLine (line : Text) : Option (Text × Text) :=
  (line.foldlM (Scan.step tables) .lead).bind Scan.assigns

/-- A character without its case, as far as it is one of the letters of `seed_base`. -/
def caseless (c : Char) : Char := if c = '\u017f' then 's' else c.toLower

/-- `_SEED_NAME.fullmatch` of a name: `(?:\w*_)?seed(?:_base)?`, in any case. -/
def isSeedName (n : Text) : Bool :=
  ["seed".toList, "seed_base".toList].any fun core =>
    let first := n.take (n.length - core.length)
    (n.drop first.length).map caseless = core ∧ (first = [] ∨ first.getLast? = some '_')

/-- `int` of a sign and digits. -/
def intOf (number : Text) : Int :=
  let natOf (digits : Text) : Nat :=
    digits.foldl (fun n c => 10 * n + (tables.decimal c).getD 0) 0
  match number with
  | '-' :: digits => -(natOf digits : Int)
  | '+' :: digits => natOf digits
  | digits => natOf digits

/-- The most digits `int` reads of a text. -/
def INT_MAX_STR_DIGITS : Nat := 4300

/-- Whether `int` reads a sign and digits. -/
def intReads (number : Text) : Bool :=
  (number.filter fun c => c ≠ '+' ∧ c ≠ '-').length ≤ INT_MAX_STR_DIGITS

/-- Why a revision is no seed replicate of the nominee. -/
inductive SeedError where
  | ownBytes
  | files (changed : List Text)
  | notStrategy (path : Text)
  | unreadable (path : Text)
  | lineCount (path : Text) (before after : Nat)
  | lines (path : Text) (changed : Nat)
  | notSeed (path after : Text) (number : Nat)
  | tooManyDigits
  deriving DecidableEq

/-- The files a revision was recorded with, by their paths. -/
abbrev Revision := Dict Text Bytes

variable {δ : Type} [DecidableEq δ] (sha256 : Bytes → δ)

/-- `_revision_files`: what the manifest of a revision says of its files. -/
def revisionFiles (revision : Revision) : Dict Text δ := revision.mapValues fun _ => sha256

/-- `Path.read_text(encoding="utf-8")`. -/
def readTextStrict (bytes : Bytes) : Option Text :=
  let t := Utf8.decode bytes
  if Utf8.encode t = bytes then some (universalNewlines t) else none

/-- The paths whose files differ. -/
def changedPaths (nominee other : Revision) : List Text :=
  let before := revisionFiles sha256 nominee
  let after := revisionFiles sha256 other
  sortTexts ((before.keys ++ after.keys).dedup.filter fun path =>
    before.get? path ≠ after.get? path)

/-- What `one_line_change` returns. -/
structure LineChange where
  path : Text
  before : Text
  after : Text
  number : Nat

/-- The lines of a file of a revision. -/
def linesOf (revision : Revision) (path : Text) : Except SeedError (List Text) :=
  match (revision.get? path).bind readTextStrict with
  | none => .error (.unreadable path)
  | some t => .ok (splitLines t)

/-- The one line in which two lists of lines differ. -/
def changedLine (path : Text) (before after : List Text) : Except SeedError LineChange :=
  if before.length ≠ after.length then .error (.lineCount path before.length after.length)
  else
    match (before.zip after).zipIdx.filter fun entry => entry.1.1 ≠ entry.1.2 with
    | [((old, new), line)] => .ok ⟨path.drop "output/".length, old, new, line + 1⟩
    | lines => .error (.lines path lines.length)

/-- `one_line_change`. -/
def oneLineChange (nominee other : Revision) : Except SeedError LineChange :=
  match changedPaths sha256 nominee other with
  | [] => .error .ownBytes
  | path :: paths =>
    if paths ≠ [] ∨ path ∉ nominee.keys ∨ path ∉ other.keys then .error (.files (path :: paths))
    else if ¬ ("output/".toList <+: path ∧ ".py".toList <:+ path) then .error (.notStrategy path)
    else do
      let before ← linesOf nominee path
      let after ← linesOf other path
      changedLine path before after

/-- Whether one changed line gives a seed name another value. -/
def seedChanged (change : LineChange) : Except SeedError Text :=
  match seedLine tables change.before, seedLine tables change.after with
  | some old, some new =>
    if old.1 ≠ new.1 ∨ isSeedName old.1 = false then
      .error (.notSeed change.path (stripText change.after) change.number)
    else if intReads old.2 = false ∨ intReads new.2 = false then .error .tooManyDigits
    else if intOf tables old.2 = intOf tables new.2 then
      .error (.notSeed change.path (stripText change.after) change.number)
    else .ok (change.path ++ ": ".toList ++ stripText change.after)
  | _, _ => .error (.notSeed change.path (stripText change.after) change.number)

/-- `seed_change`. -/
def seedChange (nominee replicate : Revision) : Except SeedError Text := do
  let change ← oneLineChange sha256 nominee replicate
  seedChanged tables change

end SeedReplicates

end AutoTrade
