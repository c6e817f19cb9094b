import AutoTrade.Environment.Tools.Base
import Mathlib.Data.List.Dedup

/-!
# Listing files

The glob tool of `environment/tools/search.py`: the walk of a directory that finds the files whose
path matches a pattern, and the page of them that a call returns.
-/

namespace AutoTrade.Search

open PyValue (lit)
open Tools (PyException raise)

/-- What a name in a directory stands for; a symlink, wherever it leads, is none of the others. -/
inductive Node where
  | file
  | symlink
  | other
  | dir (listable : Bool) (entries : List (PyStr × Node))

def Node.isDir : Node → Bool
  | .dir _ _ => true
  | _ => false

/-- A path, as its names. -/
abbrev Parts := List PyStr

def slash : CodePoint := .char '/'

/-- The names in a directory differ, and none is empty or holds a slash. -/
inductive Named : Node → Prop where
  | file : Named .file
  | symlink : Named .symlink
  | other : Named .other
  | dir {listable : Bool} {entries : List (PyStr × Node)}
      (distinct : (entries.map Prod.fst).Nodup)
      (names : ∀ entry ∈ entries, entry.1 ≠ [] ∧ slash ∉ entry.1)
      (each : ∀ entry ∈ entries, Named entry.2) : Named (.dir listable entries)

mutual

/-- How many nodes there are in a tree. -/
def Node.weight : Node → Nat
  | .dir _ entries => 1 + weights entries
  | _ => 1

def weights : List (PyStr × Node) → Nat
  | [] => 0
  | (_, node) :: rest => Node.weight node + weights rest

end

/-- `PurePosixPath(text).parts` of a path that is not absolute. -/
def partsOf (text : PyStr) : Parts :=
  (text.splitOn slash).filter fun part => part ≠ [] && part ≠ lit "."

def startsWithDot (part : PyStr) : Bool := part.head? = some (.char '.')

def pathError (message blocked : PyStr) : PyException :=
  raise "ToolError".toList
    (.toolError { errorType := lit "path_error", blockedTarget := some blocked }) message

/-- `_validate_relative_pattern(pattern, label="pattern")`. -/
def validateRelativePattern (pattern : PyStr) : Except PyException Unit :=
  if pattern = [] then
    .error (raise "ToolError".toList (.toolError { errorType := lit "schema_error" })
      (lit "pattern must not be empty"))
  else if pattern.head? = some slash ∨ lit ".." ∈ partsOf pattern then
    .error (pathError (lit "pattern must be relative and must not contain '..'") pattern)
  else if (partsOf pattern).any startsWithDot then
    .error (pathError (lit "pattern must not contain hidden path components") pattern)
  else .ok ()

section Walk

/- What `fnmatch.fnmatchcase` says of a name and a part of a pattern. -/
variable (fnmatchcase : PyStr → PyStr → Bool)

/-- `_glob_match_parts`. -/
def globMatchParts : Parts → Parts → Bool
  | path, [] => path.isEmpty
  | [], first :: rest => first = lit "**" && globMatchParts [] rest
  | name :: path, first :: rest =>
    if first = lit "**" then
      globMatchParts (name :: path) rest || globMatchParts path (first :: rest)
    else fnmatchcase name first && globMatchParts path rest
termination_by path pattern => (pattern.length, path.length)

def vcsDirs : List PyStr :=
  [lit ".git", lit ".hg", lit ".svn", lit ".bzr", lit ".jj", lit ".sl"]

/-- `_is_vcs_path` and `_has_hidden_part`, of a path below the root. -/
def isSkipped (path : Parts) : Bool :=
  path.any (· ∈ vcsDirs) || path.any startsWithDot

def ordinal : CodePoint → Nat
  | .char c => c.toNat
  | .surrogate offset => 0xD800 + offset

/-- `sorted(directory.iterdir(), key=lambda item: item.name)`. -/
def sortEntries (entries : List (PyStr × Node)) : List (PyStr × Node) :=
  entries.mergeSort fun a b => decide (a.1.map ordinal ≤ b.1.map ordinal)

/-- What the walk comes upon: a file that matches, or a directory that it cannot list. -/
inductive Event where
  | found (path : Parts)
  | skipped (path : Parts)

/-- A file of a directory, when it matches. -/
def visitFile (pattern : Parts) (directory : Parts) (entry : PyStr × Node) : Option Event :=
  let path := directory ++ [entry.1]
  match entry.2 with
  | .file =>
    if !isSkipped path && globMatchParts fnmatchcase path pattern then some (.found path) else none
  | _ => none

/-- A directory in a directory, unless it is not to be seen. -/
def subdir (directory : Parts) (entry : PyStr × Node) : Option (Parts × Node) :=
  let path := directory ++ [entry.1]
  match entry.2 with
  | .dir listable entries => if isSkipped path then none else some (path, .dir listable entries)
  | _ => none

theorem weights_perm {entries entries' : List (PyStr × Node)} (perm : entries.Perm entries') :
    weights entries = weights entries' := by
  induction perm with
  | nil => rfl
  | cons entry _ ih => simp only [weights, ih]
  | swap a b l => simp only [weights]; omega
  | trans _ _ ih ih' => exact ih.trans ih'

/-- The nodes on the stack of the walk. -/
def stackWeight (stack : List (Parts × Node)) : Nat := (stack.map fun top => top.2.weight).sum

theorem stackWeight_subdirs (directory : Parts) (entries : List (PyStr × Node)) :
    stackWeight ((sortEntries entries).filterMap (subdir directory)) ≤ weights entries := by
  rw [← weights_perm (List.mergeSort_perm entries _), ← sortEntries]
  induction sortEntries entries with
  | nil => exact Nat.le_refl _
  | cons entry rest ih =>
    rw [List.filterMap_cons, weights]
    cases found : subdir directory entry with
    | none =>
      simp only
      omega
    | some top =>
      have same : top.2.weight = entry.2.weight := by
        rw [subdir] at found
        split at found
        · rename_i node
          split at found
          · exact nomatch found
          · rw [← Option.some.inj found, node]
        · exact nomatch found
      simp only [stackWeight, List.map_cons, List.sum_cons, same] at ih ⊢
      omega

/-- The loop of `_iter_glob_matches`, from the stack on: the directories of a directory are put on
the stack to be walked in order, before what is on it already. -/
def walkFrom (pattern : Parts) : List (Parts × Node) → List Event
  | [] => []
  | (directory, .dir true entries) :: stack =>
    (sortEntries entries).filterMap (visitFile fnmatchcase pattern directory) ++
      walkFrom pattern ((sortEntries entries).filterMap (subdir directory) ++ stack)
  | (directory, .dir false _) :: stack => .skipped directory :: walkFrom pattern stack
  | _ :: stack => walkFrom pattern stack
termination_by stack => stackWeight stack
decreasing_by
  · have le := stackWeight_subdirs directory entries
    simp only [stackWeight, List.map_append, List.sum_append, List.map_cons, List.sum_cons,
      Node.weight] at le ⊢
    omega
  · simp only [stackWeight, List.map_cons, List.sum_cons, Node.weight]
    omega
  · rename_i top
    have some : 0 < top.2.weight := by
      cases top.2 with
      | dir listable entries => rw [Node.weight]; omega
      | _ => exact Nat.one_pos
    simp only [stackWeight, List.map_cons, List.sum_cons]
    omega

/-- `_iter_glob_matches`; the directory that was asked for must be one that can be listed. -/
def iterGlobMatches (root : Node) (pattern : PyStr) : Except PyException (List Event) :=
  match root with
  | .dir false _ =>
    .error (raise "ToolError".toList (.toolError {}) (lit "glob failed to list directory: '.'"))
  | root => .ok (walkFrom fnmatchcase (partsOf pattern) [([], root)])

/-- The paging fields of a page. -/
structure Paging where
  offset : Nat
  headLimit : Nat
  returned : Nat
  truncated : Bool
  total : Option Nat
  totalLowerBound : Nat
  totalKnown : Bool

/-- `_apply_paging`. -/
def applyPaging (lines : List PyStr) (offset headLimit : Nat) (sourceTruncated : Bool)
    (totalPrefix : Nat) : List PyStr × Paging :=
  let totalLowerBound := totalPrefix + lines.length
  let visible := if lines.length < offset then [] else (lines.drop offset).take headLimit
  (visible,
    { offset
      headLimit
      returned := visible.length
      truncated := sourceTruncated || decide (offset + visible.length < lines.length)
      total := if sourceTruncated then none else some totalLowerBound
      totalLowerBound
      totalKnown := !sourceTruncated })

def maxResultChars : Nat := 20000

def newline : CodePoint := .char '\n'

/-- `"\n".join(lines)`. -/
def joinLines (lines : List PyStr) : PyStr := [newline].intercalate lines

/-- `_budget_page_lines`: the names that stand before the cut of a page that is too long, and
whether it was cut. -/
def budgetPageLines (lines : List PyStr) : List PyStr × Bool :=
  let content := joinLines lines
  if content.length ≤ maxResultChars then (lines, false)
  else (((content.take maxResultChars).splitOn newline).dropLast, true)

/-- What the loop of a call has taken from the walk. -/
structure Taken where
  files : List PyStr
  skipped : List Parts
  seenMatches : Nat
  sourceTruncated : Bool

/-- `str(candidate.relative_to(target))`. -/
def pathText (path : Parts) : PyStr := [slash].intercalate path

/-- The loop of `GlobTool.invoke`, which stops the walk at the match after the last it takes. -/
def takeMatches (offset headLimit : Nat) : List Event → Taken → Taken
  | [], taken => taken
  | .skipped path :: rest, taken =>
    takeMatches offset headLimit rest { taken with skipped := taken.skipped ++ [path] }
  | .found path :: rest, taken =>
    let taken := { taken with seenMatches := taken.seenMatches + 1 }
    if taken.seenMatches ≤ offset then takeMatches offset headLimit rest taken
    else if headLimit ≤ taken.files.length then { taken with sourceTruncated := true }
    else
      takeMatches offset headLimit rest { taken with files := taken.files ++ [pathText path] }

/-- A page: the names, the paging fields, and whether the budget cut it. -/
structure Page where
  filenames : List PyStr
  paging : Paging
  truncatedByChars : Bool

/-- `int(arguments.get("head_limit") or DEFAULT_GLOB_LIMIT)`. -/
def headLimitOf (headLimit : Option Nat) : Nat :=
  match headLimit with
  | some (n + 1) => n + 1
  | _ => 100

/-- The page of what has been taken. -/
def pageOf (taken : Taken) (headLimit offset : Nat) : Page :=
  let (visible, paging) := applyPaging taken.files 0 headLimit taken.sourceTruncated
    (taken.seenMatches - taken.files.length)
  let paging := { paging with offset }
  let (filenames, truncatedByChars) := budgetPageLines visible
  let paging := if filenames.length ≠ visible.length then
      { paging with returned := filenames.length, truncated := true }
    else paging
  { filenames, paging, truncatedByChars }

/-- `_partial_fields`: the first of the directories that could not be listed, and how many they
are. -/
def partialFields (skipped : List Parts) : List PyStr × Nat :=
  let names := (skipped.map pathText).dedup.mergeSort fun a b =>
    decide (a.map ordinal ≤ b.map ordinal)
  (names.take 20, names.length)

/-- The value of a call. -/
structure Result where
  root : PyStr
  path : PyStr
  pattern : PyStr
  numFiles : Option Nat
  page : Page
  skipped : List PyStr × Nat

/-- `GlobTool.invoke`, from the directory that its root and path lead to; `repr` is Python's. -/
def glob (repr : PyStr → PyStr) (root path : PyStr) (target : Node) (pattern : PyStr)
    (headLimit : Option Nat) (offset : Nat) : Except PyException Result := do
  validateRelativePattern pattern
  if !target.isDir then
    throw (raise "ToolError".toList (.toolError { errorType := lit "path_error" })
      (lit "glob path must be a directory under root " ++ repr root ++ lit ": " ++ repr path))
  let events ← iterGlobMatches fnmatchcase target pattern
  let taken := takeMatches offset (headLimitOf headLimit) events ⟨[], [], 0, false⟩
  let page := pageOf taken (headLimitOf headLimit) offset
  pure ⟨root, path, pattern, page.paging.total, page, partialFields taken.skipped⟩

end Walk

end AutoTrade.Search
