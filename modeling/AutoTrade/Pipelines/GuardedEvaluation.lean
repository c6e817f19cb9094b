import AutoTrade.Environment.Artifacts

/-!
# The guard of a frozen artifact

`autotrade/pipelines/experiment.py`, `_run_guarded_evaluation`: a registered artifact is
evaluated beside a snapshot of its trees, compared with it, and restored from it. What an
evaluation does to the trees is left open, and so is how far the file system lets a restore go.
-/

namespace AutoTrade

namespace GuardedEvaluation

open Artifacts
open Utf8 (Bytes)

/-- The output and the models of an artifact, as they are found. -/
abbrev Trees := Found × Found

/-- A registered artifact: its trees hold what its rules carry and nothing else. -/
structure RegisteredArtifact where
  path : Tree
  modelPath : Option Tree
  carries : ∃ files, collectArtifactFiles (strategyRules true) path = .ok files ∧
    files.Equiv path.files
  carriesModels : ∀ t ∈ modelPath, ∃ files, collectArtifactFiles (modelRules true) t = .ok files ∧
    files.Equiv t.files

namespace RegisteredArtifact

/-- The model tree of an artifact, missing where it has none. -/
def models (artifact : RegisteredArtifact) : Found :=
  match artifact.modelPath with
  | none => .missing
  | some t => .tree t

def modelFiles (artifact : RegisteredArtifact) : Dict Text Bytes :=
  match artifact.modelPath with
  | none => Dict.empty
  | some t => t.files

end RegisteredArtifact

/-- `_snapshot_registered_trees`. -/
def snapshotRegisteredTrees (artifact : RegisteredArtifact) : Except ArtifactError Trees := do
  let output ← copyArtifact (.tree artifact.path)
  let models ← copyModelArtifacts (artifact.modelPath.map .tree)
  return (.tree output, .tree models)

/-- `_registered_trees_changed`. -/
def registeredTreesChanged (live snapshot : Trees) : Except ArtifactError Bool := do
  let changed ← modificationDelta snapshot.1 live.1
  if changed ≠ [] then return true
  else
    let changed ← modelArtifactDelta snapshot.2 live.2
    return changed ≠ []

/-- Why trees that have changed are not restored. -/
inductive RestoreError where
  | failed
  | stillDiffer
  | compared (error : ArtifactError)
  deriving DecidableEq

/-- What a guarded evaluation returns, and the trees it leaves. -/
structure Report (ρ : Type) where
  trees : Trees
  outcome : ρ
  changed : Bool
  restoreError : Option RestoreError

/-- The restore of trees that have changed, and its own comparison. -/
def restoreTrees (snapshot after : Trees) (disk : RestoreIo) : Trees × Option RestoreError :=
  let restored := restoreRegisteredArtifactTrees snapshot after disk
  if restored.2 = false then (restored.1, some .failed)
  else
    match registeredTreesChanged restored.1 snapshot with
    | .error e => (restored.1, some (.compared e))
    | .ok true => (restored.1, some .stillDiffer)
    | .ok false => (restored.1, none)

/-- `_run_guarded_evaluation`: a comparison that fails counts as a change. -/
def runGuardedEvaluation {ρ : Type} (evaluation : Trees → Trees × ρ) (disk : RestoreIo)
    (artifact : RegisteredArtifact) : Except ArtifactError (Report ρ) := do
  let snapshot ← snapshotRegisteredTrees artifact
  let evaluated := evaluation (.tree artifact.path, artifact.models)
  match registeredTreesChanged evaluated.1 snapshot with
  | .ok false => return ⟨evaluated.1, evaluated.2, false, none⟩
  | _ =>
    let restored := restoreTrees snapshot evaluated.1 disk
    return ⟨restored.1, evaluated.2, true, restored.2⟩

end GuardedEvaluation

end AutoTrade
