import AutoTrade.Environment.Artifacts
import AutoTrade.Misc.Framing
import AutoTrade.Misc.Runs

/-!
# The fingerprint is a content address

Every file is hashed under a header that ends at a byte no name holds and says how long its
bytes are. So what is hashed is read back in one way, file by file in the order of the names.
-/

namespace AutoTrade

namespace Artifacts

open Utf8 (Bytes)

theorem nul_not_mem_digitsOf (n : Nat) : '\x00' ∉ JsonNumber.digitsOf n := by
  intro member
  have plain := (JsonNumber.digitsOf_spec n).2.1 _ member
  simp [isNumberChar] at plain

theorem digitsOf_injective : Function.Injective JsonNumber.digitsOf := by
  intro n n' same
  rw [← (JsonNumber.digitsOf_spec n).2.2, same, (JsonNumber.digitsOf_spec n').2.2]

/-- The length a header declares, as bytes. -/
def sizeBytes (n : Nat) : Bytes := Utf8.encode (JsonNumber.digitsOf n)

theorem sizeBytes_injective : Function.Injective sizeBytes := fun _ _ same =>
  digitsOf_injective (Utf8.encode_injective same)

theorem nul_not_mem_sizeBytes (n : Nat) : 0 ∉ sizeBytes n :=
  Utf8.ascii_not_mem_encode (d := '\x00') (by decide) (nul_not_mem_digitsOf n)

theorem fingerprintRecord_eq (label : Text) (file : Text × Bytes) :
    fingerprintRecord label file =
      framed Utf8.encode sizeBytes 0 (label ++ '/' :: file.1, file.2) := by
  have nul : ∀ t, Utf8.encode ('\x00' :: t) = 0 :: Utf8.encode t := fun _ => rfl
  unfold fingerprintRecord framed sizeBytes
  have last : Utf8.encode ['\x00'] = [0] := rfl
  rw [Utf8.encode_append, nul, Utf8.encode_append (JsonNumber.digitsOf _), last]
  simp only [List.append_assoc, List.cons_append, List.nil_append]

theorem records_delimited :
    SelfDelimiting (fun record : Text × Bytes => 0 ∉ Utf8.encode record.1)
      (framed Utf8.encode sizeBytes 0) :=
  selfDelimiting_framed Utf8.encode_injective sizeBytes_injective nul_not_mem_sizeBytes

theorem perm_sortedFiles (files : Dict Text Bytes) : (sortedFiles files).Perm files.entries :=
  List.perm_insertionSort _ _

variable {relpath : Text} {bytes : Bytes}

theorem mem_sortedFiles {files : Dict Text Bytes} :
    (relpath, bytes) ∈ sortedFiles files ↔ files.get? relpath = some bytes := by
  rw [(perm_sortedFiles files).mem_iff, Dict.mem_entries_iff]

theorem sortedFiles_eq_iff {files files' : Dict Text Bytes} :
    sortedFiles files = sortedFiles files' ↔ files.Equiv files' := by
  constructor
  · intro same
    have perm := (perm_sortedFiles files).symm
    rw [same] at perm
    exact perm.trans (perm_sortedFiles files')
  · intro equiv
    have sorted : ∀ files : Dict Text Bytes,
        (sortedFiles files).Pairwise fun a b => a.1 ≤ b.1 := fun files => by
      have : IsTrans (Text × Bytes) fun a b => a.1 ≤ b.1 := ⟨fun _ _ _ => le_trans⟩
      have : Std.Total (α := Text × Bytes) fun a b => a.1 ≤ b.1 :=
        ⟨fun a b => le_total a.1 b.1⟩
      exact List.pairwise_insertionSort _ _
    refine List.Perm.eq_of_pairwise ?_ (sorted files) (sorted files') ?_
    · intro a b here there le ge
      have name : a.1 = b.1 := le_antisymm le ge
      have left := mem_sortedFiles.mp (show (a.1, a.2) ∈ sortedFiles files from here)
      have right := mem_sortedFiles.mp (show (b.1, b.2) ∈ sortedFiles files' from there)
      rw [equiv.get?, name, right] at left
      exact Prod.ext name (Option.some.inj left).symm
    · exact (perm_sortedFiles files).trans (List.Perm.trans equiv (perm_sortedFiles files').symm)

/-- A file under the label of its root. -/
def labelled (label : Text) (file : Text × Bytes) : Text × Bytes := (label ++ '/' :: file.1, file.2)

/-- The files of an artifact as they are hashed. -/
def labelledFiles (output models : Dict Text Bytes) : List (Text × Bytes) :=
  (sortedFiles output).map (labelled "output".toList) ++
    (sortedFiles models).map (labelled "models".toList)

theorem fingerprintStream_eq (output models : Dict Text Bytes) :
    fingerprintStream output models =
      (labelledFiles output models).flatMap (framed Utf8.encode sizeBytes 0) := by
  unfold fingerprintStream labelledFiles
  rw [List.flatMap_append, List.flatMap_map, List.flatMap_map, funext (fingerprintRecord_eq _),
    funext (fingerprintRecord_eq _)]
  rfl

/-- No name holds the byte that ends it. -/
def Named (files : Dict Text Bytes) : Prop := ∀ relpath ∈ files.keys, '\x00' ∉ relpath

theorem labelled_injective (label : Text) : Function.Injective (labelled label) := by
  rintro ⟨relpath, bytes⟩ ⟨relpath', bytes'⟩ same
  simpa [labelled] using same

theorem nul_not_mem_labelled {label : Text} {files : Dict Text Bytes} (named : Named files)
    (plain : '\x00' ∉ label) {file : Text × Bytes} (member : file ∈ sortedFiles files) :
    0 ∉ Utf8.encode (labelled label file).1 := by
  have found := mem_sortedFiles.mp (show (file.1, file.2) ∈ sortedFiles files from member)
  have clean := named file.1 (Dict.mem_keys_iff.mpr ⟨file.2, found⟩)
  refine Utf8.ascii_not_mem_encode (d := '\x00') (by decide) ?_
  simp [labelled, plain, clean]

theorem labelledFiles_free {output models : Dict Text Bytes} (namedOutput : Named output)
    (namedModels : Named models) :
    ∀ file ∈ labelledFiles output models, 0 ∉ Utf8.encode file.1 := by
  intro file member
  rcases List.mem_append.mp member with here | here
  · obtain ⟨file', inside, rfl⟩ := List.mem_map.mp here
    exact nul_not_mem_labelled namedOutput (by decide) inside
  · obtain ⟨file', inside, rfl⟩ := List.mem_map.mp here
    exact nul_not_mem_labelled namedModels (by decide) inside

/-- Whether a labelled file is one of the output. -/
def isOutput (file : Text × Bytes) : Bool := file.1.head? = some 'o'

theorem filter_labelledFiles (output models : Dict Text Bytes) :
    (labelledFiles output models).filter isOutput =
        (sortedFiles output).map (labelled "output".toList) ∧
      (labelledFiles output models).filter (fun file => !isOutput file) =
        (sortedFiles models).map (labelled "models".toList) := by
  have outputs : ∀ file ∈ (sortedFiles output).map (labelled "output".toList),
      isOutput file = true := by
    intro file member
    obtain ⟨file', -, rfl⟩ := List.mem_map.mp member
    rfl
  have others : ∀ file ∈ (sortedFiles models).map (labelled "models".toList),
      isOutput file = false := by
    intro file member
    obtain ⟨file', -, rfl⟩ := List.mem_map.mp member
    rfl
  unfold labelledFiles
  rw [List.filter_append, List.filter_append]
  constructor
  · rw [List.filter_eq_self.mpr outputs, List.filter_eq_nil_iff.mpr, List.append_nil]
    intro file member
    rw [others file member]
    exact Bool.false_ne_true
  · rw [List.filter_eq_nil_iff.mpr, List.filter_eq_self.mpr, List.nil_append]
    · intro file member
      rw [others file member]
      rfl
    · intro file member
      rw [outputs file member]
      exact Bool.false_ne_true

theorem fingerprintStream_eq_iff {output output' models models' : Dict Text Bytes}
    (named : Named output ∧ Named models) (named' : Named output' ∧ Named models') :
    fingerprintStream output models = fingerprintStream output' models' ↔
      output.Equiv output' ∧ models.Equiv models' := by
  constructor
  · intro same
    rw [fingerprintStream_eq, fingerprintStream_eq] at same
    have files := records_delimited.flatMap_inj (labelledFiles_free named.1 named.2)
      (labelledFiles_free named'.1 named'.2) same
    have outputs := (filter_labelledFiles output models).1
    have others := (filter_labelledFiles output models).2
    rw [files, (filter_labelledFiles output' models').1] at outputs
    rw [files, (filter_labelledFiles output' models').2] at others
    exact ⟨sortedFiles_eq_iff.mp ((labelled_injective _).list_map outputs.symm),
      sortedFiles_eq_iff.mp ((labelled_injective _).list_map others.symm)⟩
  · rintro ⟨outputs, others⟩
    rw [fingerprintStream, fingerprintStream, sortedFiles_eq_iff.mpr outputs,
      sortedFiles_eq_iff.mpr others]

variable {rules : Rules} {t : Tree} {files : Dict Text Bytes} {root : Found}

theorem collectArtifactFiles_eq_ok : collectArtifactFiles rules t = .ok files ↔
    (∀ relpath node, t.entries.get? relpath = some node →
      ∃ bytes, collected rules relpath node = .ok bytes) ∧
      files = t.entries.filterMap (carried rules) := by
  have each : (∃ taken, t.entries.entries.mapM (fun entry => collected rules entry.1 entry.2) =
      .ok taken) ↔ ∀ relpath node, t.entries.get? relpath = some node →
        ∃ bytes, collected rules relpath node = .ok bytes := by
    rw [mapM_isOk]
    simp only [Prod.forall, Dict.mem_entries_iff]
  unfold collectArtifactFiles
  rw [except_map_eq_ok, ← each]
  constructor
  · rintro ⟨taken, ran, rfl⟩
    exact ⟨⟨taken, ran⟩, rfl⟩
  · rintro ⟨⟨taken, ran⟩, rfl⟩
    exact ⟨taken, ran, rfl⟩

theorem collected_eq_some {node : Node} :
    collected rules relpath node = .ok (some bytes) ↔
      node = .file bytes ∧ relpath ∉ rules.metadataFiles ∧ hasHiddenPart relpath = false ∧
        isRuntimeCache relpath = false ∧ (suffixOf relpath).map lowerChar ∈ rules.allowedSuffixes := by
  unfold collected
  by_cases metadata : relpath ∈ rules.metadataFiles
  · simp [metadata]
  by_cases linked : node = .symlink
  · subst linked
    simp [metadata]
  cases hidden : hasHiddenPart relpath with
  | true => simp [metadata, linked]
  | false =>
    cases cached : isRuntimeCache relpath with
    | true =>
      cases rejects : rules.rejectRuntimeCache <;> simp [metadata, linked]
    | false =>
      cases node with
      | directory | special => simp [metadata]
      | symlink => exact absurd rfl linked
      | file bytes' =>
        by_cases allowed : (suffixOf relpath).map lowerChar ∈ rules.allowedSuffixes <;>
          simp [metadata, allowed]

theorem carried_eq_some {node : Node} :
    carried rules relpath node = some bytes ↔ collected rules relpath node = .ok (some bytes) := by
  unfold carried
  cases collected rules relpath node with
  | error e => simp [Except.toOption]
  | ok taken => simp [Except.toOption]

theorem get?_collected (read : collectArtifactFiles rules t = .ok files) :
    files.get? relpath = some bytes ↔
      t.entries.get? relpath = some (.file bytes) ∧
        collected rules relpath (.file bytes) = .ok (some bytes) := by
  rw [(collectArtifactFiles_eq_ok.mp read).2, Dict.get?_filterMap, Option.bind_eq_some_iff]
  simp only [carried_eq_some]
  constructor
  · rintro ⟨node, found, takes⟩
    obtain rfl := (collected_eq_some.mp takes).1
    exact ⟨found, takes⟩
  · rintro ⟨found, takes⟩
    exact ⟨_, found, takes⟩

theorem named_of_collected (read : collectArtifactFiles rules t = .ok files) : Named files := by
  intro relpath member
  obtain ⟨bytes, found⟩ := Dict.mem_keys_iff.mp member
  exact t.named relpath (Dict.mem_keys_iff.mpr ⟨_, ((get?_collected read).mp found).1⟩)

theorem collect_copyRevision (read : collectArtifactFiles rules t = .ok files) :
    ∃ files', collectArtifactFiles rules (copyRevision t files) = .ok files' ∧
      files'.Equiv files := by
  have kept : ∀ {relpath : Text} {node : Node},
      (copyRevision t files).entries.get? relpath = some node ↔
        t.entries.get? relpath = some node ∧ keptBy files relpath node = true := Dict.get?_filter
  have reads : collectArtifactFiles rules (copyRevision t files) =
      .ok ((copyRevision t files).entries.filterMap (carried rules)) := by
    refine collectArtifactFiles_eq_ok.mpr ⟨fun relpath node found => ?_, rfl⟩
    exact (collectArtifactFiles_eq_ok.mp read).1 relpath node (kept.mp found).1
  refine ⟨_, reads, Dict.equiv_of_get? fun relpath => Option.ext fun bytes => ?_⟩
  rw [get?_collected reads, kept]
  constructor
  · rintro ⟨⟨-, carries⟩, -⟩
    exact of_decide_eq_true carries
  · intro carries
    have here := (get?_collected read).mp carries
    exact ⟨⟨here.1, decide_eq_true carries⟩, here.2⟩

/-- The output and the model files of an artifact. -/
def artifactOf (output : Found) (models : Option Found) :
    Except ArtifactError (Dict Text Bytes × Dict Text Bytes) := do
  let files ← artifactFiles output false
  let modelFiles ← optionalModelFiles models
  return (files, modelFiles)

variable {δ : Type} {sha256 : Bytes → δ} {output : Found} {models : Option Found}
  {modelFiles : Dict Text Bytes}

theorem artifactOf_eq_ok : artifactOf output models = .ok (files, modelFiles) ↔
    artifactFiles output false = .ok files ∧ optionalModelFiles models = .ok modelFiles := by
  simp only [artifactOf, bind_eq_ok, pure_eq_ok, Prod.mk.injEq]
  constructor
  · rintro ⟨_, read, _, read', rfl, rfl⟩
    exact ⟨read, read'⟩
  · rintro ⟨read, read'⟩
    exact ⟨_, read, _, read', rfl, rfl⟩

theorem artifactFingerprint_eq (read : artifactOf output models = .ok (files, modelFiles)) :
    artifactFingerprint sha256 output models = .ok (sha256 (fingerprintStream files modelFiles)) := by
  obtain ⟨outputRead, modelsRead⟩ := artifactOf_eq_ok.mp read
  rw [artifactFingerprint, outputRead, modelsRead]
  rfl

theorem named_empty : Named Dict.empty := fun _ member => nomatch member

theorem named_of_artifactOf (read : artifactOf output models = .ok (files, modelFiles)) :
    Named files ∧ Named modelFiles := by
  obtain ⟨outputRead, modelsRead⟩ := artifactOf_eq_ok.mp read
  constructor
  · cases output with
    | missing | notDirectory => cases outputRead
    | tree t => exact named_of_collected outputRead
  · rcases models with _ | _ | _ | t
    · cases modelsRead
      exact named_empty
    · cases modelsRead
      exact named_empty
    · cases modelsRead
    · exact named_of_collected modelsRead

theorem artifactFiles_copy (read : artifactFiles root false = .ok files) :
    ∃ copy files', copyArtifact root = .ok copy ∧ artifactFiles (.tree copy) false = .ok files' ∧
      files'.Equiv files := by
  cases root with
  | missing | notDirectory => cases read
  | tree t =>
    obtain ⟨files', reads, same⟩ := collect_copyRevision read
    exact ⟨copyRevision t files, files', except_map_eq_ok.mpr ⟨files, read, rfl⟩, reads, same⟩

theorem optionalModelFiles_copy (read : optionalModelFiles models = .ok modelFiles) :
    ∃ copy files', copyModelArtifacts models = .ok copy ∧
      optionalModelFiles (some (.tree copy)) = .ok files' ∧ files'.Equiv modelFiles := by
  rcases models with _ | _ | _ | t
  · cases read
    exact ⟨Tree.empty, Dict.empty, rfl, rfl, .refl _⟩
  · cases read
    exact ⟨Tree.empty, Dict.empty, rfl, rfl, .refl _⟩
  · cases read
  · obtain ⟨files', reads, same⟩ := collect_copyRevision read
    exact ⟨copyRevision t modelFiles, files', except_map_eq_ok.mpr ⟨modelFiles, read, rfl⟩,
      reads, same⟩

theorem copyArtifactSnapshot_still [DecidableEq δ] {copy copies : Tree} {fingerprint : δ}
    {second : Attempt} (copied : copyArtifact output = .ok copy)
    (copied' : copyModelArtifacts models = .ok copies)
    (kept : artifactFingerprint sha256 (.tree copy) (some (.tree copies)) =
      artifactFingerprint sha256 output models)
    (source : artifactFingerprint sha256 output models = .ok fingerprint) :
    (copyArtifactSnapshot sha256 ⟨(output, models), (output, models)⟩ second).map Prod.snd =
      artifactFingerprint sha256 output models := by
  have taken : Attempt.take sha256 ⟨(output, models), (output, models)⟩ =
      .ok ((copy, copies), fingerprint, fingerprint) := by
    simp only [Attempt.take, bind_eq_ok, pure_eq_ok]
    exact ⟨copy, copied, copies, copied', fingerprint, kept.trans source, fingerprint, source, rfl⟩
  rw [copyArtifactSnapshot, taken, source]
  simp [bind, Except.bind, Except.map]

/-- What is hashed of two artifacts is the same exactly when they hold the same output and
model files with the same bytes, so an injective hash tells them apart; and an artifact can be
copied, and its copy is hashed as it is, as is the snapshot of one that holds still. -/
theorem fingerprint_content_address [DecidableEq δ] (sha256 : Bytes → δ) {output output' : Found}
    {models models' : Option Found} {files files' modelFiles modelFiles' : Dict Text Bytes}
    (read : artifactOf output models = .ok (files, modelFiles))
    (read' : artifactOf output' models' = .ok (files', modelFiles')) :
    (artifactFingerprint id output models = artifactFingerprint id output' models' ↔
      files.Equiv files' ∧ modelFiles.Equiv modelFiles') ∧
    (Function.Injective sha256 →
      (artifactFingerprint sha256 output models = artifactFingerprint sha256 output' models' ↔
        files.Equiv files' ∧ modelFiles.Equiv modelFiles')) ∧
    ∃ copy copies, copyArtifact output = .ok copy ∧ copyModelArtifacts models = .ok copies ∧
      artifactFingerprint sha256 (.tree copy) (some (.tree copies)) =
        artifactFingerprint sha256 output models ∧
      ∀ second, (copyArtifactSnapshot sha256 ⟨(output, models), (output, models)⟩ second).map
        Prod.snd = artifactFingerprint sha256 output models := by
  have address := fingerprintStream_eq_iff (named_of_artifactOf read) (named_of_artifactOf read')
  refine ⟨?_, fun injective => ?_, ?_⟩
  · rw [artifactFingerprint_eq read, artifactFingerprint_eq read', Except.ok.injEq]
    exact address
  · rw [artifactFingerprint_eq read, artifactFingerprint_eq read', Except.ok.injEq,
      injective.eq_iff]
    exact address
  · obtain ⟨outputRead, modelsRead⟩ := artifactOf_eq_ok.mp read
    obtain ⟨copy, outputs, copied, carried, same⟩ := artifactFiles_copy outputRead
    obtain ⟨copies, parameters, copied', carried', same'⟩ := optionalModelFiles_copy modelsRead
    have readCopy := artifactOf_eq_ok.mpr ⟨carried, carried'⟩
    have kept : artifactFingerprint sha256 (.tree copy) (some (.tree copies)) =
        artifactFingerprint sha256 output models := by
      rw [artifactFingerprint_eq readCopy, artifactFingerprint_eq read,
        (fingerprintStream_eq_iff (named_of_artifactOf readCopy) (named_of_artifactOf read)).mpr
          ⟨same, same'⟩]
    exact ⟨copy, copies, copied, copied', kept, fun second =>
      copyArtifactSnapshot_still copied copied' kept (artifactFingerprint_eq read)⟩

/-- A tree with one file at its root. -/
def oneFile (name : Text) (bytes : Bytes) (plain : '\x00' ∉ name) (flat : parents name = []) : Tree where
  entries := Dict.ofList [(name, .file bytes)]
  named relpath member := by
    obtain rfl := List.mem_singleton.mp member
    exact plain
  parented relpath member above isAbove := by
    obtain rfl := List.mem_singleton.mp member
    rw [flat] at isAbove
    cases isAbove

theorem fingerprint_content_address_entry :
    let package (byte : Nat) : Found := .tree (oneFile "main.py".toList [byte] (by decide) (by decide))
    artifactFingerprint id (package 35) none ≠ artifactFingerprint id (package 36) (some .missing) := by
  intro package same
  have files : ∀ byte models, optionalModelFiles models = .ok Dict.empty →
      artifactOf (package byte) models =
        .ok (Dict.ofList [("main.py".toList, [byte])], Dict.empty) := by
    intro byte models read
    exact artifactOf_eq_ok.mpr ⟨rfl, read⟩
  have address := (fingerprint_content_address id (files 35 none rfl)
    (files 36 (some .missing) rfl)).1.mp same
  have byte := address.1.get? "main.py".toList
  revert byte
  decide

end Artifacts

end AutoTrade
