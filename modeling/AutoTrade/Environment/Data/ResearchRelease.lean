import AutoTrade.DataSources.Tushare.Generation

/-!
# Research releases

`autotrade/environment/data/research_release.py`: what makes a release complete, how a
release is selected where the newest cannot be published, and the pin a directory keeps of
one. Of the trees themselves only what these checks read is modelled.
-/

namespace AutoTrade

namespace ResearchRelease

/-- What stops a command or a pin. -/
inductive Stop where
  | unreadable
  | invalidGeneration
  | notCommitted
  | qualityFiles
  deriving DecidableEq

/-- `[A-Za-z0-9]`. -/
def isAsciiAlnum (c : Char) : Bool := c.toNat < 128 && c.isAlphanum

/-- `_SAFE_GENERATION_ID`. -/
def isGenerationId (generation : Text) : Bool :=
  match generation with
  | [] => false
  | c :: rest => isAsciiAlnum c && decide (rest.length ≤ 127) &&
      rest.all fun d => isAsciiAlnum d || d ∈ ['.', '_', '-']

/-- `_validate_generation_text`. -/
def validateGenerationText (generation : Text) : Except Stop Unit :=
  if isGenerationId generation then .ok () else .error .invalidGeneration

/-- `raw_generation.json`. -/
inductive RawFile where
  | missing
  | unreadable
  | record (state : GenerationState) (generation : Text)
  deriving DecidableEq

/-- `_committed_generation_id(_read_generation(path))`. -/
def RawFile.committed : RawFile → Except Stop Text
  | .missing | .unreadable => .error .unreadable
  | .record .updating _ => .error .notCommitted
  | .record .committed generation =>
    (validateGenerationText generation).map fun _ => generation

/-- `quality_files` against the files beside it. -/
inductive QualityFiles where
  | noInventory | failed | verified
  deriving DecidableEq

/-- The paths a release was published from. -/
structure Source where
  rawDir : Text
  eventsRoot : Text
  qualityDir : Text
  deriving DecidableEq

/-- `manifest.json` of a release. -/
structure Manifest where
  kind : Text
  schemaVersion : Nat
  generation : Text
  createdAt : Text
  statusName : Text
  quality : QualityFiles
  source : Option Source
  deriving DecidableEq

/-- A manifest as it is found. -/
inductive ManifestFile where
  | missing
  | unreadable
  | read (manifest : Manifest)
  deriving DecidableEq

/-- A release directory: its manifest, whether its three roots are real directories, the
generation record in its raw tree, and the raw datasets that hold a file. -/
structure ReleaseTree where
  manifest : ManifestFile
  roots : Bool
  raw : RawFile
  datasets : List Text
  deriving DecidableEq

/-- `_GlobalRelease`. -/
structure Release where
  generation : Text
  statusName : Text
  source : Source
  deriving DecidableEq

/-- `Path(name).name == name`. -/
def isPlainName (name : Text) : Bool := '/' ∉ name && name ≠ ['.']

/-- `Path(path).is_absolute()`. -/
def isAbsolute (path : Text) : Bool := path.head? = some '/'

/-- `_load_global_release(root / name)`, strict: none is a release that is absent or
incomplete in its structure. -/
def loadGlobalRelease (name : Text) (tree : ReleaseTree) : Except Stop (Option Release) :=
  match tree.manifest with
  | .missing => .ok none
  | .unreadable => .error .unreadable
  | .read m =>
    if m.kind ≠ "research_release".toList ∨ m.schemaVersion ≠ 2 then .ok none
    else if isGenerationId m.generation = false then .error .invalidGeneration
    else if name ≠ m.generation ∨ tree.roots = false then .ok none
    else
      match tree.raw.committed with
      | .error stop => .error stop
      | .ok generation =>
        if generation ≠ m.generation ∨ isPlainName m.statusName = false then .ok none
        else
          match m.quality with
          | .noInventory => .ok none
          | .failed => .error .qualityFiles
          | .verified =>
            match m.source with
            | none => .ok none
            | some source =>
              if isAbsolute source.rawDir ∧ isAbsolute source.eventsRoot ∧
                  isAbsolute source.qualityDir then
                .ok (some ⟨m.generation, m.statusName, source⟩)
              else .ok none

/-- The release a directory is, when it is whole. -/
def completeRelease (name : Text) (tree : ReleaseTree) : Option Release :=
  (loadGlobalRelease name tree).toOption.join

/-- `_require_raw_datasets`. -/
def ReleaseTree.covers (tree : ReleaseTree) (required : List Text) : Bool :=
  required.all fun dataset => dataset ∈ tree.datasets

/-- The published releases by their names. -/
abbrev Registry := Dict Text ReleaseTree

/-- A release that can be used: complete and with the datasets that are required. -/
def Registry.usable (registry : Registry) (required : List Text) (generation : Text) :
    Option Release :=
  match registry.get? generation with
  | none => none
  | some tree => if tree.covers required then completeRelease generation tree else none

/-- The creation time and name of a candidate. -/
def candidate (entry : Text × ReleaseTree) : Option (Text × Text) :=
  match entry.2.manifest with
  | .read m => if m.kind = "research_release".toList then some (m.createdAt, entry.1) else none
  | _ => none

/-- `_select_existing_release`: the preferred generation, or the newest release of this lake.
A preferred release of another lake stops the pin. -/
def Registry.selectExisting (registry : Registry) (fromLake : Release → Bool)
    (required : List Text) (preferred : Text) : Option Release :=
  match (if isGenerationId preferred then registry.usable required preferred else none) with
  | some release => if fromLake release then some release else none
  | none =>
    let candidates := (registry.entries.filterMap candidate).insertionSort fun a b =>
      b.1 < a.1 ∨ b.1 = a.1 ∧ b.2 ≤ a.2
    candidates.findSome? fun c =>
      (registry.usable required c.2).filter fun release => fromLake release

/-- A pin's own manifest, and whether its quality files are the ones it lists. -/
structure PinRecord where
  pinKind : Bool
  generation : Text
  verified : Bool
  deriving DecidableEq

inductive Pin where
  | unreadable
  | record (r : PinRecord)
  deriving DecidableEq

/-- `pinned_generation`, none where the directory holds no pin. -/
def pinnedGeneration : Option Pin → Except Stop (Option Text)
  | none => .ok none
  | some .unreadable => .error .unreadable
  | some (.record r) => (validateGenerationText r.generation).map fun _ => some r.generation

/-- `_load_experiment_pin`: the generation of a pin whose release is published, complete and
of this lake. -/
def loadExperimentPin (registry : Registry) (fromLake : Release → Bool) : Pin → Option Text
  | .unreadable => none
  | .record r =>
    match registry.get? r.generation with
    | none => none
    | some tree =>
      match completeRelease r.generation tree with
      | none => none
      | some release =>
        if r.pinKind ∧ fromLake release ∧ r.verified then some r.generation else none

end ResearchRelease

end AutoTrade
