import AutoTrade.Environment.Tools.Search
import AutoTrade.Misc.Faults

/-!
# Trees of skills

The items of a skills tree as directories of files, and the checks of `pipelines/skills.py` that
every such tree must pass: those of a name, of a path in an item, of the bytes of a file, and
`validate_skills_tree` of them all. What the transferable boundary objects to in a text is left
open.
-/

namespace AutoTrade.Skills

open PyValue (lit)
open Search (partsOf slash startsWithDot ordinal)
open Utf8 (Bytes)
open Faults (Program)

/-- What the functions of the library and the tools raise. -/
inductive Failure where
  | value (message : PyStr)
  | unicodeEncode
  | key (message : PyStr)
  | os
  | fileExists (message : PyStr)
  | fileNotFound (message : PyStr)
  deriving DecidableEq

/-- What a name in a directory is. -/
def IsName (name : PyStr) : Prop :=
  name ≠ [] ∧ slash ∉ name ∧ name ≠ lit "." ∧ name ≠ lit ".."

instance (name : PyStr) : Decidable (IsName name) :=
  inferInstanceAs (Decidable (name ≠ [] ∧ slash ∉ name ∧ name ≠ lit "." ∧ name ≠ lit ".."))

abbrev FileName := { name : PyStr // IsName name }

/-- A place in an item: the names that lead there. -/
abbrev Place := List FileName

/-- `relative.as_posix()`. -/
def Place.text (place : Place) : PyStr := [slash].intercalate (place.map Subtype.val)

/-- `SKILL_FILENAME`. -/
def skillFilename : FileName := ⟨lit "SKILL.md", by decide⟩

def scripts : FileName := ⟨lit "scripts", by decide⟩

def references : FileName := ⟨lit "references", by decide⟩

/-- What a symbolic link leads to. -/
inductive LinkEnd where
  | file (content : Bytes)
  | directory
  | nothing
  deriving DecidableEq

inductive SkillNode where
  | file (content : Bytes)
  | directory (writable : Bool)
  | link (leads : LinkEnd)
  | special
  deriving DecidableEq

def SkillNode.isDirectory : SkillNode → Bool
  | directory _ => true
  | _ => false

def SkillNode.content? : SkillNode → Option Bytes
  | file content => some content
  | _ => none

/-- What is read where `is_file` holds, through a link too. -/
def SkillNode.reads : SkillNode → Option Bytes
  | file content => some content
  | link (.file content) => some content
  | _ => none

def SkillNode.chmod (writable : Bool) : SkillNode → SkillNode
  | directory _ => directory writable
  | node => node

/-- What is in a tree under one name, and all that is below: whatever is below is in a directory. -/
structure SkillItem where
  nodes : Dict Place SkillNode
  itself : (nodes.get? []).isSome
  nested : ∀ {place name node}, nodes.get? (place ++ [name]) = some node →
    ∃ writable, nodes.get? place = some (.directory writable)

namespace SkillItem

/-- What has nothing below. -/
def single (node : SkillNode) : SkillItem where
  nodes := Dict.empty.set [] node
  itself := by rw [Dict.get?_set_self]; rfl
  nested := fun found => by
    rw [Dict.get?_set_of_ne _ _ (by simp)] at found
    exact nomatch found

def node (item : SkillItem) : SkillNode := (item.nodes.get? []).get item.itself

def dirAt (item : SkillItem) (place : Place) : Bool :=
  ((item.nodes.get? place).map SkillNode.isDirectory).getD false

def fileAt (item : SkillItem) (place : Place) : Option Bytes :=
  (item.nodes.get? place).bind SkillNode.content?

variable {item : SkillItem} {place : Place}

theorem dirAt_iff :
    item.dirAt place = true ↔ ∃ writable, item.nodes.get? place = some (.directory writable) := by
  rw [dirAt]
  constructor
  · intro inside
    cases found : item.nodes.get? place with
    | none => simp [found] at inside
    | some node => cases node <;> simp_all [SkillNode.isDirectory]
  · rintro ⟨writable, found⟩
    rw [found]
    rfl

theorem fileAt_eq_some {content : Bytes} :
    item.fileAt place = some content ↔ item.nodes.get? place = some (.file content) := by
  rw [fileAt, Option.bind_eq_some_iff]
  constructor
  · rintro ⟨node, found, its⟩
    cases node with
    | file content' => rw [found, Option.some.inj its]
    | directory => exact nomatch its
    | link => exact nomatch its
    | special => exact nomatch its
  · intro found
    exact ⟨_, found, rfl⟩

/-- Something in a directory, where there is no directory. -/
def put (item : SkillItem) (place : Place) (node : SkillNode) (inside : place ≠ [])
    (above : item.dirAt place.dropLast = true) (spare : item.dirAt place = false) : SkillItem where
  nodes := item.nodes.set place node
  itself := by
    rw [Dict.get?_set_of_ne _ _ inside]
    exact item.itself
  nested := fun {other name node'} found => by
    have apart : place ≠ other := fun same => by
      rw [Dict.get?_set_of_ne _ _ (by simp [same])] at found
      exact Bool.false_ne_true (spare.symm.trans (dirAt_iff.mpr (same ▸ item.nested found)))
    rw [Dict.get?_set_of_ne _ _ apart]
    rw [Dict.get?_set] at found
    split at found
    · rename_i same
      rw [same, List.dropLast_concat] at above
      exact dirAt_iff.mp above
    · exact item.nested found

/-- A file may be put here, by its name or by renaming it. -/
def mayPut (item : SkillItem) (place : Place) : Bool :=
  place ≠ [] && item.dirAt place.dropLast && !item.dirAt place

/-- A directory may be made here. -/
def mayMake (item : SkillItem) (place : Place) : Bool :=
  item.mayPut place && (item.nodes.get? place).isNone

def write (item : SkillItem) (place : Place) (node : SkillNode) : SkillItem :=
  if h : place ≠ [] ∧ item.dirAt place.dropLast = true ∧ item.dirAt place = false then
    item.put place node h.1 h.2.1 h.2.2
  else item

/-- `chmod_tree`, as far as the modes of directories are told apart. -/
def chmod (item : SkillItem) (writable : Bool) : SkillItem where
  nodes := item.nodes.mapValues fun _ node => node.chmod writable
  itself := by
    rw [Dict.get?_mapValues, Option.isSome_map]
    exact item.itself
  nested := fun found => by
    rw [Dict.get?_mapValues] at found ⊢
    have ⟨_, there, _⟩ := Option.map_eq_some_iff.mp found
    have ⟨writable', above⟩ := item.nested there
    exact ⟨writable, by rw [above]; rfl⟩

/-- `rglob`: what is in a directory and below, with its place in it. -/
def below (item : SkillItem) : Dict Place SkillNode := item.nodes.erase []

theorem mayPut_iff :
    item.mayPut place = true ↔
      place ≠ [] ∧ item.dirAt place.dropLast = true ∧ item.dirAt place = false := by
  simp [mayPut, and_assoc]

theorem nodes_write (may : item.mayPut place = true) (node : SkillNode) :
    (item.write place node).nodes = item.nodes.set place node := by
  rw [write, dif_pos (mayPut_iff.mp may)]
  rfl

end SkillItem

/-- A directory of items; `linked` when the path to it is a symbolic link. -/
structure SkillsTree where
  linked : Bool
  writable : Bool
  items : Dict FileName SkillItem

namespace SkillsTree

def empty : SkillsTree := ⟨false, true, Dict.empty⟩

def set (tree : SkillsTree) (name : FileName) (item : SkillItem) : SkillsTree :=
  { tree with items := tree.items.set name item }

def without (tree : SkillsTree) (name : FileName) : SkillsTree :=
  { tree with items := tree.items.erase name }

def chmod (tree : SkillsTree) (writable : Bool) : SkillsTree :=
  { tree with writable, items := tree.items.mapValues fun _ item => item.chmod writable }

/-- `mkdir` of an item. -/
def makeItem (tree : SkillsTree) (name : FileName) : SkillsTree :=
  tree.set name (.single (.directory true))

/-- What is done in an item that is there. -/
def within (tree : SkillsTree) (name : FileName) (change : SkillItem → SkillItem) : SkillsTree :=
  match tree.items.get? name with
  | none => tree
  | some item => tree.set name (change item)

end SkillsTree

/-- `mkdir(parents=True, exist_ok=True)`, from a directory that is there: what is at a place, and
the operation that makes a directory there. -/
def makeParents {σ ω : Type} (nodeAt : σ → Place → Option SkillNode) (mkdir : Place → ω) :
    Place → Place → Program σ ω Failure Unit
  | _, [] => pure ()
  | dir, name :: rest => do
    let there ← Program.reading .os fun s => .ok (nodeAt s (dir ++ [name]))
    match there with
    | none => Program.performing .os (mkdir (dir ++ [name]))
    | some (.directory _) => pure ()
    | some _ => throw .os
    makeParents nodeAt mkdir (dir ++ [name]) rest

/-- `SkillsStats`. -/
@[ext] structure SkillsStats where
  count : Nat := 0
  files : Nat := 0
  bytes : Nat := 0
  deriving DecidableEq

/-- `MAX_SKILL_NAME_CHARS`. -/
def maxSkillNameChars : Nat := 64

/-- `MAX_SKILL_CHARS`. -/
def maxSkillChars : Nat := 16000

/-- `MAX_SKILL_FILE_BYTES`. -/
def maxSkillFileBytes : Nat := 64 * 1024

/-- `MAX_SKILLS_BYTES`. -/
def maxSkillsBytes : Nat := 1024 * 1024

/-- `MAX_SKILLS_FILES`. -/
def maxSkillsFiles : Nat := 128

/-- `MAX_SKILLS`. -/
def maxSkills : Nat := 32

/-- A number in a message. -/
def shown (n : Nat) : PyStr := lit (toString n)

/-- `ALLOWED_SKILL_SUFFIXES`. -/
def allowedSkillSuffixes : List PyStr :=
  [lit ".md", lit ".py", lit ".sql", lit ".sh", lit ".json", lit ".toml", lit ".yaml", lit ".yml",
    lit ".txt"]

/-- `[a-z0-9]`. -/
def isNameChar (point : CodePoint) : Bool :=
  match point with
  | .char c => c.isLower || c.isDigit
  | .surrogate _ => false

/-- `_SKILL_NAME_RE`. -/
def isKebab (value : PyStr) : Bool :=
  (value.splitOn (.char '-')).all fun word => word ≠ [] && word.all isNameChar

/-- `str.lower`, as far as a comparison with the suffixes can tell: no other character is written
with their letters in lower case. -/
def lower (text : PyStr) : PyStr :=
  text.map fun point =>
    match point with
    | .char c => .char c.toLower
    | .surrogate offset => .surrogate offset

/-- `PurePath.suffix` of a name. -/
def suffix (name : PyStr) : PyStr :=
  let after := name.reverse.takeWhile (· ≠ .char '.')
  if after = [] ∨ name.length ≤ after.length + 1 then [] else .char '.' :: after.reverse

section Policy

/- What `strict_transferable_content_violation` says of a text, nothing of one that it allows. -/
variable (violation : PyStr → PyStr)

def noSkillName : Failure :=
  .value (lit "skill name must be lowercase kebab-case and at most " ++ shown maxSkillNameChars ++
    lit " characters")

/-- `validate_skill_name`; what is no name in a directory is not in kebab case either. -/
def validateSkillName (value : PyStr) : Except Failure FileName := do
  if h : IsName value then
    if maxSkillNameChars < value.length || !isKebab value then
      throw noSkillName
    if violation value ≠ [] then
      throw (.value (lit "skill name violates the transferable boundary: " ++ violation value))
    return ⟨value, h⟩
  else throw noSkillName

def hiddenOrOutside : Failure :=
  .value (lit "skill path must be a non-hidden relative path without '..'")

/-- `validate_skill_path`. -/
def validateSkillPath (value : PyStr) : Except Failure Place := do
  let parts := partsOf value
  if value = [] || value.head? = some slash || parts.any startsWithDot then
    throw hiddenOrOutside
  let place ← (parts.mapM fun part => if h : IsName part then .ok ⟨part, h⟩
    else .error hiddenOrOutside : Except Failure Place)
  if place = [skillFilename] then
    return place
  if place.length < 2 || place.head? ≠ some scripts && place.head? ≠ some references then
    throw (.value (lit "skill path must be SKILL.md or live under scripts/ or references/"))
  let ending := suffix ((place.getLast?.map Subtype.val).getD [])
  if lower ending ∉ allowedSkillSuffixes then
    throw (.value (lit "skill file extension is not allowed: " ++
      if ending = [] then lit "[none]" else ending))
  if violation value ≠ [] then
    throw (.value (lit "skill path violates the transferable boundary: " ++ violation value))
  return place

/-- `_decode_skill_file`, with the path that its errors show. -/
def decodeSkillFile (path : PyStr) (payload : Bytes) : Except Failure Text := do
  if maxSkillFileBytes < payload.length then
    throw (.value (lit "skill file " ++ path ++ lit " is " ++ shown payload.length ++
      lit " bytes; keep it to " ++ shown maxSkillFileBytes))
  match CodePoint.decode payload with
  | none => throw (.value (lit "skill file is not UTF-8: " ++ path))
  | some text =>
    if violation (CodePoint.ofText text) ≠ [] then
      throw (.value (lit "skill content violates the transferable boundary: " ++
        violation (CodePoint.ofText text)))
    return text

/-- `sorted(…, key=lambda path: path.as_posix())`, or by name. -/
def sortedBy {α : Type} (text : α → PyStr) (l : List α) : List α :=
  l.insertionSort fun a b => (text a).map ordinal ≤ (text b).map ordinal

/- Whether directories must be writable, and the path of the tree, which errors show. -/
variable (requireWritable : Bool) (root : PyStr)

/-- One turn of the inner loop of `validate_skills_tree`. -/
def checkNode (item : FileName) (seen : SkillsStats) (entry : Place × SkillNode) :
    Except Failure SkillsStats := do
  let relative := item.val ++ slash :: entry.1.text
  if entry.1.any fun part => startsWithDot part.val then
    throw (.value (lit "hidden skills path is forbidden: " ++ relative))
  match entry.2 with
  | .link _ => throw (.value (lit "skill symlink is forbidden: " ++ relative))
  | .directory writable =>
    if entry.1.head? ≠ some scripts && entry.1.head? ≠ some references then
      throw (.value (lit "skill directory must live under scripts/ or references/: " ++ relative))
    if requireWritable && !writable then
      throw (.value (lit "skill directory must be writable: " ++ relative))
    return seen
  | .special => throw (.value (lit "skill path is not a regular file: " ++ relative))
  | .file payload =>
    -- the suffix is checked once more after this, and has passed
    let _ ← validateSkillPath violation entry.1.text
    let text ← decodeSkillFile violation (root ++ slash :: relative) payload
    if entry.1 = [skillFilename] && maxSkillChars < text.length then
      throw (.value (item.val ++ lit "/SKILL.md exceeds " ++ shown maxSkillChars ++
        lit " characters"))
    let seen' : SkillsStats := ⟨seen.count, seen.files + 1, seen.bytes + payload.length⟩
    if maxSkillsFiles < seen'.files then
      throw (.value (lit "skills tree exceeds " ++ shown maxSkillsFiles ++ lit " files"))
    if maxSkillsBytes < seen'.bytes then
      throw (.value (lit "skills tree exceeds " ++ shown maxSkillsBytes ++ lit " bytes"))
    return seen'

/-- One turn of the outer loop of `validate_skills_tree`. -/
def checkItem (seen : SkillsStats) (entry : FileName × SkillItem) :
    Except Failure SkillsStats := do
  let name := entry.1.val
  if startsWithDot name then
    throw (.value (lit "hidden skills path is forbidden: " ++ name))
  let _ ← validateSkillName violation name
  match entry.2.node with
  | .directory writable =>
    if requireWritable && !writable then
      throw (.value (lit "skill item must be writable: " ++ name))
    let seen' : SkillsStats := { seen with count := seen.count + 1 }
    if maxSkills < seen'.count then
      throw (.value (lit "skills tree exceeds " ++ shown maxSkills ++ lit " items"))
    if (entry.2.fileAt [skillFilename]).isNone then
      throw (.value (lit "skill item is missing SKILL.md: " ++ name))
    (sortedBy (fun node => node.1.text) entry.2.below.entries).foldlM
      (checkNode violation requireWritable root entry.1) seen'
  | _ => throw (.value (lit "skill item must be a regular directory: " ++ name))

/-- `validate_skills_tree`. -/
def validateSkillsTree (tree : Option SkillsTree) : Except Failure SkillsStats := do
  match tree with
  | none => throw (.value (lit "skills root does not exist"))
  | some tree =>
    if tree.linked then
      throw (.value (lit "skills root must be a regular directory, not a symlink"))
    if requireWritable && !tree.writable then
      throw (.value (lit "skills working tree must be writable"))
    (sortedBy (fun entry => entry.1.val) tree.items.entries).foldlM
      (checkItem violation requireWritable root) {}

end Policy

end AutoTrade.Skills
