import AutoTrade.Environment.Proofs.Artifacts
import AutoTrade.Pipelines.GuardedEvaluation
import Mathlib.Data.List.Dedup

/-!
# When a frozen artifact stays frozen

The snapshot of a registered artifact, and the copy a restore makes of it, carry the files the
artifact had. So a change that is reported is undone or its restore failed; and a change the
comparison of texts does not see is neither reported nor undone.
-/

namespace AutoTrade

namespace GuardedEvaluation

open Artifacts
open Utf8 (Bytes)

variable {rules : Rules} {t : Tree} {files : Dict Text Bytes} {relpath : Text}

theorem get?_files {bytes : Bytes} :
    t.files.get? relpath = some bytes ↔ t.entries.get? relpath = some (.file bytes) := by
  unfold Tree.files
  rw [Dict.get?_filterMap, Option.bind_eq_some_iff]
  constructor
  · rintro ⟨node, found, same⟩
    cases node with
    | file bytes' =>
      obtain rfl := Option.some.inj same
      exact found
    | directory | symlink | special => cases same
  · intro found
    exact ⟨_, found, rfl⟩

/-- A tree carries these files under its rules and holds no other. -/
structure Carries (rules : Rules) (t : Tree) (files : Dict Text Bytes) : Prop where
  collects : ∃ taken, collectArtifactFiles rules t = .ok taken ∧ taken.Equiv files
  holds : t.files.Equiv files

theorem Carries.of_collected (carries : ∃ taken, collectArtifactFiles rules t = .ok taken ∧
    taken.Equiv t.files) : Carries rules t t.files := ⟨carries, .refl _⟩

theorem carries_empty (rules : Rules) : Carries rules Tree.empty Dict.empty :=
  ⟨⟨Dict.empty, rfl, .refl _⟩, .refl _⟩

theorem Carries.copy (carries : Carries rules t files) {taken : Dict Text Bytes}
    (same : taken.Equiv files) : Carries rules (copyRevision t taken) files := by
  obtain ⟨collected, read, equal⟩ := carries.collects
  have kept : ∀ {relpath : Text} {bytes : Bytes},
      (copyRevision t taken).entries.get? relpath = some (.file bytes) ↔
        t.entries.get? relpath = some (.file bytes) := by
    intro relpath bytes
    have filtered : (copyRevision t taken).entries.get? relpath = some (.file bytes) ↔
        t.entries.get? relpath = some (.file bytes) ∧ keptBy taken relpath (.file bytes) = true :=
      Dict.get?_filter
    rw [filtered, and_iff_left_iff_imp]
    intro found
    refine decide_eq_true ?_
    rw [same.get?, ← carries.holds.get?]
    exact get?_files.mpr found
  have reads : collectArtifactFiles rules (copyRevision t taken) =
      .ok ((copyRevision t taken).entries.filterMap (carried rules)) :=
    collectArtifactFiles_eq_ok.mpr ⟨fun relpath node found =>
      (collectArtifactFiles_eq_ok.mp read).1 relpath node (Dict.get?_filter.mp found).1, rfl⟩
  constructor
  · refine ⟨_, reads, Dict.equiv_of_get? fun relpath => Option.ext fun bytes => ?_⟩
    rw [get?_collected reads, kept, ← equal.get?, get?_collected read]
  · refine Dict.equiv_of_get? fun relpath => Option.ext fun bytes => ?_
    rw [get?_files, kept, ← carries.holds.get?, get?_files]

theorem collected_of_strict {node : Node} {taken : Option Bytes}
    (takes : collected (strategyRules true) relpath node = .ok taken) :
    collected (strategyRules false) relpath node = .ok taken := by
  unfold collected at takes ⊢
  by_cases metadata : relpath ∈ (strategyRules true).metadataFiles
  · have skipped : relpath ∈ (strategyRules false).metadataFiles := metadata
    rw [if_pos metadata] at takes
    rw [if_pos skipped]
    exact takes
  have listed : relpath ∉ (strategyRules false).metadataFiles := metadata
  rw [if_neg metadata] at takes
  rw [if_neg listed]
  by_cases linked : node = .symlink
  · rw [if_pos linked] at takes
    cases takes
  rw [if_neg linked] at takes ⊢
  cases hidden : hasHiddenPart relpath with
  | true =>
    rw [hidden, if_pos rfl] at takes
    cases takes
  | false =>
    cases cached : isRuntimeCache relpath with
    | true =>
      rw [hidden, if_neg Bool.false_ne_true, cached, if_pos rfl] at takes
      cases takes
    | false =>
      rw [hidden, if_neg Bool.false_ne_true, cached, if_neg Bool.false_ne_true] at takes
      rw [if_neg Bool.false_ne_true, if_neg Bool.false_ne_true]
      exact takes

theorem Carries.lax (carries : Carries (strategyRules true) t files) :
    ∃ taken, collectArtifactFiles (strategyRules false) t = .ok taken ∧ taken.Equiv files := by
  obtain ⟨taken, read, same⟩ := carries.collects
  have each := (collectArtifactFiles_eq_ok.mp read).1
  have reads : collectArtifactFiles (strategyRules false) t =
      .ok (t.entries.filterMap (carried (strategyRules false))) := by
    refine collectArtifactFiles_eq_ok.mpr ⟨fun relpath node found => ?_, rfl⟩
    obtain ⟨bytes, takes⟩ := each relpath node found
    exact ⟨bytes, collected_of_strict takes⟩
  refine ⟨_, reads, Dict.equiv_of_get? fun relpath => Option.ext fun bytes => ?_⟩
  rw [get?_collected reads, ← same.get?, get?_collected read]
  constructor
  · rintro ⟨found, takes⟩
    obtain ⟨bytes', strict⟩ := each relpath _ found
    rw [collected_of_strict strict] at takes
    rw [Except.ok.inj takes] at strict
    exact ⟨found, strict⟩
  · rintro ⟨found, takes⟩
    exact ⟨found, collected_of_strict takes⟩

theorem Carries.copyArtifact (carries : Carries (strategyRules true) t files) :
    ∃ copy, Artifacts.copyArtifact (.tree t) = .ok copy ∧
      Carries (strategyRules true) copy files := by
  obtain ⟨taken, read, same⟩ := carries.lax
  exact ⟨copyRevision t taken, except_map_eq_ok.mpr ⟨taken, read, rfl⟩, carries.copy same⟩

theorem Carries.copyModelArtifacts (carries : Carries (modelRules true) t files) :
    ∃ copy, Artifacts.copyModelArtifacts (some (.tree t)) = .ok copy ∧
      Carries (modelRules true) copy files := by
  obtain ⟨taken, read, same⟩ := carries.collects
  exact ⟨copyRevision t taken, except_map_eq_ok.mpr ⟨taken, read, rfl⟩, carries.copy same⟩

variable {before after : Dict Text Bytes} {snapshot live : Trees} {artifact : RegisteredArtifact}
  {output models : Tree}

theorem mem_unionNames : relpath ∈ unionNames before after ↔
    (before.get? relpath).isSome ∨ (after.get? relpath).isSome := by
  unfold unionNames
  rw [(perm_sortTexts _).mem_iff, List.mem_dedup, List.mem_append, Dict.mem_keys_iff,
    Dict.mem_keys_iff, Option.isSome_iff_exists, Option.isSome_iff_exists]

theorem unchanged_iff {β : Type} [DecidableEq β] (look : Option Bytes → β) :
    ((unionNames before after).filter fun relpath =>
      look (before.get? relpath) ≠ look (after.get? relpath)) = [] ↔
      ∀ relpath, look (before.get? relpath) = look (after.get? relpath) := by
  rw [List.filter_eq_nil_iff]
  constructor
  · intro none relpath
    by_cases listed : relpath ∈ unionNames before after
    · simpa using none relpath listed
    · rw [mem_unionNames, not_or, Option.not_isSome_iff_eq_none, Option.not_isSome_iff_eq_none]
        at listed
      rw [listed.1, listed.2]
  · intro same relpath _
    simp [same relpath]

/-- The trees read as the artifact did: the output's files by their texts, the models' by
their bytes. -/
def LooksAs (artifact : RegisteredArtifact) (live : Trees) : Prop :=
  (∃ files, artifactFiles live.1 true = .ok files ∧ ∀ relpath,
    (files.get? relpath).map readText = (artifact.path.files.get? relpath).map readText) ∧
  ∃ files, modelArtifactFiles live.2 = .ok files ∧ files.Equiv artifact.modelFiles

/-- The trees hold the files the artifact had, and no other. -/
def Holds (artifact : RegisteredArtifact) (live : Trees) : Prop :=
  (∀ relpath bytes, (∃ t, live.1 = .tree t ∧ t.files.get? relpath = some bytes) ↔
    artifact.path.files.get? relpath = some bytes) ∧
  ∀ relpath bytes, (∃ t, live.2 = .tree t ∧ t.files.get? relpath = some bytes) ↔
    artifact.modelFiles.get? relpath = some bytes

theorem parentFiles_tree (carries : Carries (strategyRules true) t files) :
    ∃ taken, parentFiles (.tree t) = .ok taken ∧ taken.Equiv files := by
  unfold parentFiles
  by_cases bare : t.entries.entries = []
  · refine ⟨Dict.empty, if_pos bare, Dict.equiv_of_get? fun relpath => ?_⟩
    rw [← carries.holds.get?]
    refine (Option.eq_none_iff_forall_ne_some.mpr fun bytes found => ?_).symm
    have member := Dict.mem_entries_iff.mpr (get?_files.mp found)
    rw [bare] at member
    cases member
  · simp only [if_neg bare]
    exact carries.collects

theorem modificationDelta_nil (carries : Carries (strategyRules true) t files) {work : Found} :
    modificationDelta (.tree t) work = .ok [] ↔
      ∃ taken, artifactFiles work true = .ok taken ∧ ∀ relpath,
        (taken.get? relpath).map readText = (files.get? relpath).map readText := by
  obtain ⟨parent, read, same⟩ := parentFiles_tree carries
  simp only [modificationDelta, read, bind_eq_ok, pure_eq_ok, Except.ok.injEq, exists_eq_left']
  apply exists_congr
  intro taken
  rw [and_congr_right_iff]
  intro _
  rw [unchanged_iff (Option.map readText)]
  constructor
  · intro alike relpath
    rw [← alike relpath, same.get?]
  · intro alike relpath
    rw [alike relpath, same.get?]

theorem modelArtifactDelta_nil (carries : Carries (modelRules true) t files) {work : Found} :
    modelArtifactDelta (.tree t) work = .ok [] ↔
      ∃ taken, modelArtifactFiles work = .ok taken ∧ taken.Equiv files := by
  obtain ⟨parent, read, same⟩ := carries.collects
  have read' : modelArtifactFiles (.tree t) = .ok parent := read
  simp only [modelArtifactDelta, read', bind_eq_ok, pure_eq_ok, Except.ok.injEq, exists_eq_left']
  apply exists_congr
  intro taken
  rw [and_congr_right_iff]
  intro _
  rw [unchanged_iff fun bytes => bytes]
  constructor
  · intro equal
    refine Dict.equiv_of_get? fun relpath => ?_
    rw [← equal relpath, same.get?]
  · intro equiv relpath
    rw [equiv.get?, same.get?]

theorem registeredTreesChanged_eq_false
    (outputs : Carries (strategyRules true) output artifact.path.files)
    (parameters : Carries (modelRules true) models artifact.modelFiles) :
    registeredTreesChanged live (.tree output, .tree models) = .ok false ↔
      LooksAs artifact live := by
  unfold LooksAs
  rw [← modificationDelta_nil outputs, ← modelArtifactDelta_nil parameters, registeredTreesChanged]
  cases modificationDelta (.tree output) live.1 with
  | error e => simp [bind, Except.bind]
  | ok changed =>
    by_cases none : changed = []
    · subst none
      cases modelArtifactDelta (.tree models) live.2 with
      | error e => simp [bind, Except.bind]
      | ok changed' => simp [bind, Except.bind, pure, Except.pure]
    · simp [bind, Except.bind, pure, Except.pure, none]

theorem holds_of_carries (outputs : Carries (strategyRules true) output artifact.path.files)
    (parameters : Carries (modelRules true) models artifact.modelFiles) :
    Holds artifact (.tree output, .tree models) := by
  constructor
  · intro relpath bytes
    rw [← outputs.holds.get?]
    simp
  · intro relpath bytes
    rw [← parameters.holds.get?]
    simp

theorem snapshotRegisteredTrees_carries (artifact : RegisteredArtifact) :
    ∃ output models, snapshotRegisteredTrees artifact = .ok (.tree output, .tree models) ∧
      Carries (strategyRules true) output artifact.path.files ∧
      Carries (modelRules true) models artifact.modelFiles := by
  have registered := Carries.of_collected artifact.carries
  obtain ⟨output, copied, outputs⟩ := registered.copyArtifact
  have parameters : ∃ models, copyModelArtifacts (artifact.modelPath.map .tree) = .ok models ∧
      Carries (modelRules true) models artifact.modelFiles := by
    unfold RegisteredArtifact.modelFiles
    cases holds : artifact.modelPath with
    | none => exact ⟨Tree.empty, rfl, carries_empty _⟩
    | some t => exact (Carries.of_collected (artifact.carriesModels t holds)).copyModelArtifacts
  obtain ⟨models, copied', parameters⟩ := parameters
  refine ⟨output, models, ?_, outputs, parameters⟩
  simp only [snapshotRegisteredTrees, bind_eq_ok, pure_eq_ok]
  exact ⟨output, copied, models, copied', rfl⟩

theorem atomicReplaceCopied_done {copied : Except ArtifactError Tree} {dest : Found} {swap : Swap}
    (done : (atomicReplaceCopied copied dest swap).2 = true) :
    ∃ copy, copied = .ok copy ∧ (atomicReplaceCopied copied dest swap).1 = .tree copy := by
  cases copied with
  | error e => cases done
  | ok copy =>
    cases swap with
    | done => exact ⟨copy, rfl, rfl⟩
    | undone | lost => cases done

theorem restored_carries {disk : RestoreIo}
    (outputs : Carries (strategyRules true) output artifact.path.files)
    (parameters : Carries (modelRules true) models artifact.modelFiles)
    (through : (restoreRegisteredArtifactTrees (.tree output, .tree models) live disk).2 = true) :
    Holds artifact (restoreRegisteredArtifactTrees (.tree output, .tree models) live disk).1 := by
  unfold restoreRegisteredArtifactTrees at through ⊢
  obtain ⟨copy, copied, outputs'⟩ := outputs.copyArtifact
  obtain ⟨copies, copied', parameters'⟩ := parameters.copyModelArtifacts
  cases swapped : (atomicReplaceCopied (copyArtifact (.tree output)) live.1 disk.output).2 with
  | false => simp [swapped] at through
  | true =>
    simp only [swapped, Bool.true_eq_false, if_false, Bool.and_eq_true] at through ⊢
    obtain ⟨taken, same, here⟩ := atomicReplaceCopied_done swapped
    obtain ⟨taken', same', there⟩ := atomicReplaceCopied_done through.1
    obtain rfl := Except.ok.inj (copied.symm.trans same)
    obtain rfl := Except.ok.inj (copied'.symm.trans same')
    rw [here, there]
    exact holds_of_carries outputs' parameters'

theorem restoreTrees_holds {disk : RestoreIo}
    (outputs : Carries (strategyRules true) output artifact.path.files)
    (parameters : Carries (modelRules true) models artifact.modelFiles)
    (through : (restoreTrees (.tree output, .tree models) live disk).2 = none) :
    Holds artifact (restoreTrees (.tree output, .tree models) live disk).1 := by
  have kept := @restored_carries live artifact output models disk outputs parameters
  unfold restoreTrees at through ⊢
  cases went : (restoreRegisteredArtifactTrees (.tree output, .tree models) live disk).2 with
  | false => simp [went] at through
  | true =>
    simp only [went, Bool.true_eq_false, if_false] at through ⊢
    split at through <;> simp_all

/-- What a guarded evaluation is to report: trees as they were, or the failure of their restore. -/
def Guards {ρ : Type} (artifact : RegisteredArtifact) (report : Report ρ) : Prop :=
  if report.changed then report.restoreError = none → Holds artifact report.trees
  else Holds artifact report.trees

/-- A guarded evaluation guards an artifact exactly when it does not leave trees that read as the
artifact did and hold other bytes. -/
theorem guards_iff_seen {ρ : Type} (evaluation : Trees → Trees × ρ) (disk : RestoreIo)
    (artifact : RegisteredArtifact) :
    ∃ report, runGuardedEvaluation evaluation disk artifact = .ok report ∧
      (Guards artifact report ↔
        (LooksAs artifact (evaluation (.tree artifact.path, artifact.models)).1 →
          Holds artifact (evaluation (.tree artifact.path, artifact.models)).1)) := by
  obtain ⟨output, models, snapshot, outputs, parameters⟩ :=
    snapshotRegisteredTrees_carries artifact
  set evaluated := evaluation (.tree artifact.path, artifact.models) with ran
  have seen : registeredTreesChanged evaluated.1 (.tree output, .tree models) = .ok false ↔
      LooksAs artifact evaluated.1 := registeredTreesChanged_eq_false outputs parameters
  by_cases alike : LooksAs artifact evaluated.1
  · refine ⟨⟨evaluated.1, evaluated.2, false, none⟩, ?_, ?_⟩
    · simp only [runGuardedEvaluation, snapshot, ← ran, seen.mpr alike, bind, Except.bind, pure,
        Except.pure]
    · simp [Guards, alike]
  · have changed : registeredTreesChanged evaluated.1 (.tree output, .tree models) ≠ .ok false :=
      fun none => alike (seen.mp none)
    have restores := @restoreTrees_holds evaluated.1 artifact output models disk outputs parameters
    refine ⟨⟨(restoreTrees (.tree output, .tree models) evaluated.1 disk).1, evaluated.2, true,
      (restoreTrees (.tree output, .tree models) evaluated.1 disk).2⟩, ?_, ?_⟩
    · simp only [runGuardedEvaluation, snapshot, ← ran, bind, Except.bind, pure, Except.pure]
    · simp only [Guards, if_true, alike, false_implies, iff_true]
      exact restores

/-- A registered program of one line. -/
def frozen : RegisteredArtifact where
  path := oneFile "main.py".toList [35, 10] (by decide) (by decide)
  modelPath := none
  carries := ⟨_, rfl, .refl _⟩
  carriesModels t none := nomatch none

/-- An evaluation that writes the line back with another line ending. -/
def rewritesEnding (before : Trees) : Trees × Unit :=
  ((.tree (oneFile "main.py".toList [35, 13, 10] (by decide) (by decide)), before.2), ())

/-- The program that is left. -/
def programLeft : Found → Option Bytes
  | .tree t => t.files.get? "main.py".toList
  | _ => none

theorem rewritten_ending_unseen :
    ∃ report, runGuardedEvaluation rewritesEnding ⟨.done, .done, true⟩ frozen = .ok report ∧
      report.changed = false ∧ ¬ Holds frozen report.trees := by
  have ran : (runGuardedEvaluation rewritesEnding ⟨.done, .done, true⟩ frozen).toOption.any
      (fun report => !report.changed &&
        decide (programLeft report.trees.1 = some [35, 13, 10])) = true := by decide +kernel
  obtain ⟨report, returned, seen⟩ := (Option.any_eq_true _ _).mp ran
  refine ⟨report, ?_, ?_, ?_⟩
  · cases result : runGuardedEvaluation rewritesEnding ⟨.done, .done, true⟩ frozen with
    | error e => rw [result] at returned; cases returned
    | ok report' => rw [result] at returned; rw [Option.some.inj returned]
  · cases changed : report.changed with
    | false => rfl
    | true =>
      rw [changed] at seen
      cases seen
  · intro holds
    have kept := (Bool.and_eq_true_iff.mp seen).2
    cases left : report.trees.1 with
    | missing | notDirectory =>
      rw [left] at kept
      cases of_decide_eq_true kept
    | tree t =>
      rw [left] at kept
      have there : t.files.get? "main.py".toList = some [35, 13, 10] := of_decide_eq_true kept
      have here := (holds.1 _ _).mp ⟨t, left, there⟩
      revert here
      decide

end GuardedEvaluation

end AutoTrade
