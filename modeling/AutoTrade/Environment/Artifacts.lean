import AutoTrade.Common.Json
import AutoTrade.Common.Lines
import AutoTrade.Common.Utf8
import AutoTrade.Misc.Dict

/-!
# Artifacts

`autotrade/environment/artifacts.py`: the files an artifact carries, their fingerprint, the
copies that are made of them, and what has changed between two trees. Modes and times are
left out.
-/

namespace AutoTrade

namespace Artifacts

open Utf8 (Bytes)

inductive Node where
  | directory
  | file (bytes : Bytes)
  | symlink
  | special
  deriving DecidableEq

/-- The directories above a path, as they are named from its root. -/
def parents : Text → List Text
  | [] => []
  | c :: rest =>
    (if c = '/' then [[]] else []) ++ (parents rest).map (c :: ·)

/-- What is found below a directory, by its path from there. -/
structure Tree where
  entries : Dict Text Node
  named : ∀ relpath ∈ entries.keys, '\x00' ∉ relpath
  parented : ∀ relpath ∈ entries.keys, ∀ above ∈ parents relpath,
    entries.get? above = some .directory

namespace Tree

def empty : Tree where
  entries := Dict.empty
  named _ member := nomatch member
  parented _ member := nomatch member

/-- The files of a tree, whatever their names. -/
def files (t : Tree) : Dict Text Bytes :=
  t.entries.filterMap fun _ node =>
    match node with
    | .file bytes => some bytes
    | _ => none

end Tree

/-- What a path names. -/
inductive Found where
  | missing
  | notDirectory
  | tree (t : Tree)

def ARTIFACT_METADATA_FILES : List Text := ["manifest.json".toList]

def ALLOWED_SUFFIXES : List Text :=
  [".py", ".json", ".md", ".txt", ".toml", ".yaml", ".yml"].map String.toList

def MODEL_ARTIFACT_ALLOWED_SUFFIXES : List Text :=
  [".bin", ".cbm", ".ckpt", ".csv", ".gguf", ".h5", ".hdf5", ".joblib", ".json", ".keras",
    ".model", ".msgpack", ".npy", ".npz", ".onnx", ".params", ".parquet", ".pb", ".pdparams",
    ".pickle", ".pkl", ".pt", ".pth", ".safetensors", ".tflite", ".toml", ".txt", ".ubj",
    ".yaml", ".yml"].map String.toList

def RUNTIME_CACHE_DIR_NAMES : List Text := ["__pycache__".toList]

def RUNTIME_CACHE_SUFFIXES : List Text := [".pyc".toList, ".pyo".toList]

inductive Label where
  | strategy | models
  deriving DecidableEq

inductive ArtifactError where
  | missingDirectory (label : Label)
  | notDirectory (label : Label)
  | symlink (label : Label) (relpath : Text)
  | hidden (label : Label) (relpath : Text)
  | runtimeCache (label : Label) (relpath : Text)
  | irregular (label : Label) (relpath : Text)
  | unsupported (label : Label) (relpath : Text)
  | snapshotUnstable
  deriving DecidableEq

/-- `Path(relpath).parts`. -/
def pathParts (relpath : Text) : List Text := relpath.splitOn '/'

/-- `Path(relpath).suffix`: from the last dot of the name, unless it starts or ends it. -/
def suffixOf (relpath : Text) : Text :=
  let name := (pathParts relpath).getLastD []
  let extension := (name.reverse.takeWhile (· ≠ '.')).reverse
  let stem := name.take (name.length - extension.length - 1)
  if extension = [] ∨ stem = [] ∨ extension = name then [] else '.' :: extension

/-- `str.lower` of a character, as far as its lower case is an ASCII letter. -/
def lowerChar (c : Char) : Char := if c = '\u212a' then 'k' else c.toLower

/-- `_has_hidden_part`. -/
def hasHiddenPart (relpath : Text) : Bool :=
  (pathParts relpath).any fun part => part.head? = some '.'

/-- `_is_runtime_cache`. -/
def isRuntimeCache (relpath : Text) : Bool :=
  (pathParts relpath).any (· ∈ RUNTIME_CACHE_DIR_NAMES) || suffixOf relpath ∈ RUNTIME_CACHE_SUFFIXES

/-- What a collection takes. -/
structure Rules where
  allowedSuffixes : List Text
  metadataFiles : List Text
  rejectRuntimeCache : Bool
  label : Label

/-- What a collection makes of one path: the bytes of a file it carries, or nothing. -/
def collected (rules : Rules) (relpath : Text) (node : Node) : Except ArtifactError (Option Bytes) :=
  if relpath ∈ rules.metadataFiles then .ok none
  else if node = .symlink then .error (.symlink rules.label relpath)
  else if hasHiddenPart relpath then .error (.hidden rules.label relpath)
  else if isRuntimeCache relpath then
    if rules.rejectRuntimeCache then .error (.runtimeCache rules.label relpath) else .ok none
  else
    match node with
    | .directory => .ok none
    | .file bytes =>
      if (suffixOf relpath).map lowerChar ∈ rules.allowedSuffixes then .ok (some bytes)
      else .error (.unsupported rules.label relpath)
    | _ => .error (.irregular rules.label relpath)

/-- The bytes of a path that is carried. -/
def carried (rules : Rules) (relpath : Text) (node : Node) : Option Bytes :=
  (collected rules relpath node).toOption.join

/-- `_collect_artifact_files`, with the bytes of each. -/
def collectArtifactFiles (rules : Rules) (t : Tree) : Except ArtifactError (Dict Text Bytes) :=
  (t.entries.entries.mapM fun entry => collected rules entry.1 entry.2).map fun _ =>
    t.entries.filterMap (carried rules)

def strategyRules (rejectRuntimeCache : Bool) : Rules :=
  ⟨ALLOWED_SUFFIXES, ARTIFACT_METADATA_FILES, rejectRuntimeCache, .strategy⟩

def modelRules (rejectRuntimeCache : Bool) : Rules :=
  ⟨MODEL_ARTIFACT_ALLOWED_SUFFIXES, [], rejectRuntimeCache, .models⟩

/-- `_artifact_files`. -/
def artifactFiles (root : Found) (rejectRuntimeCache : Bool) :
    Except ArtifactError (Dict Text Bytes) :=
  match root with
  | .missing | .notDirectory => .error (.missingDirectory .strategy)
  | .tree t => collectArtifactFiles (strategyRules rejectRuntimeCache) t

/-- `_model_artifact_files` where a missing root is no error. -/
def modelArtifactFiles (root : Found) : Except ArtifactError (Dict Text Bytes) :=
  match root with
  | .missing => .ok Dict.empty
  | .notDirectory => .error (.notDirectory .models)
  | .tree t => collectArtifactFiles (modelRules true) t

/-- The model files of an artifact that may have no root for them. -/
def optionalModelFiles : Option Found → Except ArtifactError (Dict Text Bytes)
  | none => .ok Dict.empty
  | some root => modelArtifactFiles root

/-- What is hashed of one file. -/
def fingerprintRecord (label : Text) (file : Text × Bytes) : Bytes :=
  Utf8.encode (label ++ '/' :: file.1 ++
    '\x00' :: (JsonNumber.digitsOf file.2.length ++ ['\x00'])) ++ file.2

/-- The files in the order of their names. -/
def sortedFiles (files : Dict Text Bytes) : List (Text × Bytes) :=
  files.entries.insertionSort fun a b => a.1 ≤ b.1

/-- What is hashed of the files of an artifact. -/
def fingerprintStream (output models : Dict Text Bytes) : Bytes :=
  (sortedFiles output).flatMap (fingerprintRecord "output".toList) ++
    (sortedFiles models).flatMap (fingerprintRecord "models".toList)

variable {δ : Type} (sha256 : Bytes → δ)

/-- `artifact_fingerprint`. -/
def artifactFingerprint (output : Found) (models : Option Found) : Except ArtifactError δ := do
  let files ← artifactFiles output false
  let modelFiles ← optionalModelFiles models
  return sha256 (fingerprintStream files modelFiles)

theorem mem_parents {relpath above : Text} :
    above ∈ parents relpath ↔ ∃ below, relpath = above ++ '/' :: below := by
  induction relpath generalizing above with
  | nil => simp [parents]
  | cons c rest ih =>
    rw [parents, List.mem_append, List.mem_map]
    constructor
    · rintro (here | ⟨a, member, rfl⟩)
      · split_ifs at here with slash
        · rw [List.mem_singleton.mp here, slash]
          exact ⟨rest, rfl⟩
        · cases here
      · obtain ⟨below, rfl⟩ := ih.mp member
        exact ⟨below, rfl⟩
    · rintro ⟨below, same⟩
      cases above with
      | nil =>
        left
        rw [if_pos (List.head_eq_of_cons_eq same)]
        exact List.mem_singleton_self _
      | cons a above =>
        right
        have first : c = a := List.head_eq_of_cons_eq same
        subst first
        exact ⟨above, ih.mpr ⟨below, List.tail_eq_of_cons_eq same⟩, rfl⟩

/-- What a copy of some files holds of a path: the file, or the directory a file lies in. -/
def keptBy (files : Dict Text Bytes) (relpath : Text) (node : Node) : Bool :=
  match node with
  | .file bytes => files.get? relpath = some bytes
  | .directory => files.keys.any fun file => relpath ∈ parents file
  | _ => false

/-- `_copy_revision`: a tree with these files of another, each in its directories. -/
def copyRevision (source : Tree) (files : Dict Text Bytes) : Tree where
  entries := source.entries.filter (keptBy files)
  named relpath member := by
    obtain ⟨node, found⟩ := Dict.mem_keys_iff.mp member
    exact source.named relpath (Dict.mem_keys_iff.mpr ⟨node, (Dict.get?_filter.mp found).1⟩)
  parented relpath member above isAbove := by
    obtain ⟨node, found⟩ := Dict.mem_keys_iff.mp member
    have kept := Dict.get?_filter.mp found
    have directory := source.parented relpath (Dict.mem_keys_iff.mpr ⟨node, kept.1⟩) above isAbove
    refine Dict.get?_filter.mpr ⟨directory, ?_⟩
    cases node with
    | file bytes =>
      have carries : files.get? relpath = some bytes := of_decide_eq_true kept.2
      exact List.any_eq_true.mpr ⟨relpath, Dict.mem_keys_iff.mpr ⟨bytes, carries⟩,
        decide_eq_true isAbove⟩
    | directory =>
      obtain ⟨file, isFile, under⟩ := List.any_eq_true.mp kept.2
      obtain ⟨below, rfl⟩ := mem_parents.mp isAbove
      obtain ⟨below', rfl⟩ := mem_parents.mp (of_decide_eq_true under)
      exact List.any_eq_true.mpr ⟨_, isFile, decide_eq_true (mem_parents.mpr
        ⟨below ++ '/' :: below', by simp⟩)⟩
    | symlink | special => cases kept.2

/-- `copy_artifact`. -/
def copyArtifact (root : Found) : Except ArtifactError Tree :=
  match root with
  | .missing | .notDirectory => .error (.missingDirectory .strategy)
  | .tree t => (collectArtifactFiles (strategyRules false) t).map (copyRevision t)

/-- `copy_model_artifacts`. -/
def copyModelArtifacts (root : Option Found) : Except ArtifactError Tree :=
  match root with
  | none | some .missing => .ok Tree.empty
  | some .notDirectory => .error (.notDirectory .models)
  | some (.tree t) => (collectArtifactFiles (modelRules true) t).map (copyRevision t)

/-- One attempt at a snapshot: the artifact as it is copied, and as it is compared. -/
structure Attempt where
  copied : Found × Option Found
  compared : Found × Option Found

/-- The copies of an attempt and the two fingerprints it compares. -/
def Attempt.take (attempt : Attempt) : Except ArtifactError ((Tree × Tree) × δ × δ) := do
  let output ← copyArtifact attempt.copied.1
  let models ← copyModelArtifacts attempt.copied.2
  let fingerprint ← artifactFingerprint sha256 (.tree output) (some (.tree models))
  let source ← artifactFingerprint sha256 attempt.compared.1 attempt.compared.2
  return ((output, models), fingerprint, source)

variable [DecidableEq δ]

/-- `copy_artifact_snapshot`: taken, compared, and retaken once. -/
def copyArtifactSnapshot (first second : Attempt) : Except ArtifactError ((Tree × Tree) × δ) := do
  let taken ← first.take sha256
  if taken.2.1 = taken.2.2 then .ok (taken.1, taken.2.1)
  else
    let retaken ← second.take sha256
    if retaken.2.1 = retaken.2.2 then .ok (retaken.1, retaken.2.1) else .error .snapshotUnstable

/-- `_read_text`: what a file opened as text reads, bytes that are not UTF-8 replaced. -/
def readText (bytes : Bytes) : Text := universalNewlines (Utf8.decode bytes)

/-- The names of two sets of files, in their order. -/
def unionNames (parent work : Dict Text Bytes) : List Text :=
  sortTexts (parent.keys ++ work.keys).dedup

/-- The files of a parent that may be absent or empty. -/
def parentFiles (parent : Found) : Except ArtifactError (Dict Text Bytes) :=
  match parent with
  | .tree t => if t.entries.entries = [] then .ok Dict.empty else artifactFiles parent true
  | _ => .ok Dict.empty

/-- `modification_delta(...).changed_files`. -/
def modificationDelta (parent work : Found) : Except ArtifactError (List Text) := do
  let before ← parentFiles parent
  let after ← artifactFiles work true
  return (unionNames before after).filter fun relpath =>
    (before.get? relpath).map readText ≠ (after.get? relpath).map readText

/-- `model_artifact_delta(...).changed_files`. -/
def modelArtifactDelta (parent work : Found) : Except ArtifactError (List Text) := do
  let before ← modelArtifactFiles parent
  let after ← modelArtifactFiles work
  return (unionNames before after).filter fun relpath =>
    before.get? relpath ≠ after.get? relpath

/-- How putting a copy in the place of a tree ends: done, given up with the tree as it was, or
given up with the tree moved away. -/
inductive Swap where
  | done | undone | lost
  deriving DecidableEq

/-- `_atomic_replace_copied`: the tree afterwards, and whether it is the copy. -/
def atomicReplaceCopied (copied : Except ArtifactError Tree) (dest : Found) (swap : Swap) :
    Found × Bool :=
  match copied with
  | .error _ => (dest, false)
  | .ok copy =>
    match swap with
    | .done => (.tree copy, true)
    | .undone => (dest, false)
    | .lost => (.missing, false)

/-- How far the file system lets a restore go: each swap, and whether the modes hold after. -/
structure RestoreIo where
  output : Swap
  models : Swap
  locked : Bool

/-- `restore_registered_artifact_trees`: the trees afterwards, and whether it went through. -/
def restoreRegisteredArtifactTrees (snapshot live : Found × Found) (disk : RestoreIo) :
    (Found × Found) × Bool :=
  let output := atomicReplaceCopied (copyArtifact snapshot.1) live.1 disk.output
  if output.2 = false then ((output.1, live.2), false)
  else
    let models := atomicReplaceCopied (copyModelArtifacts (some snapshot.2)) live.2 disk.models
    ((output.1, models.1), models.2 && disk.locked)

end Artifacts

end AutoTrade
