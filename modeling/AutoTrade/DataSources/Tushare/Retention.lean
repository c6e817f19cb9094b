import AutoTrade.Environment.Data.ResearchRelease
import AutoTrade.Misc.Locks

/-!
# Release retention

`autotrade/data_sources/tushare/lake.py`, `release_consumers` and `prune_releases`, and the
pins of `autotrade/environment/data/research_release.py`, as processes over one lake. A step
is what a process does between two of its lock operations, or one directory a prune reads,
renames or removes. The lake has its updater lock and its generation record.
-/

namespace AutoTrade

namespace Retention

open ResearchRelease

/-- `provider.json` of a directory. -/
inductive Provider where
  | absent
  | unreadable
  | names (generation : Text)
  deriving DecidableEq

/-- `status.json`: missing, unreadable, or a state and whether its worker lives. -/
inductive Status where
  | missing
  | unreadable
  | read (state : Text) (alive : Bool)
  deriving DecidableEq

/-- `params.json`: unreadable, or the seed it names, if it names one. -/
inductive Params where
  | unreadable
  | read (seed : Option Provider)
  deriving DecidableEq

/-- The `hitl` directory of an experiment. -/
structure Console where
  status : Status
  archived : Bool
  params : Params
  deriving DecidableEq

/-- `book_status` of a book: what it returns, or whether retention catches what it raises. -/
inductive BookVerdict where
  | status (t : Text)
  | unreadable
  | stops
  deriving DecidableEq

/-- What a directory is. -/
inductive Kind where
  | data (provider : Provider)
  | experiment (hidden : Bool) (console : Option Console)
  | book (verdict : BookVerdict)
  deriving DecidableEq

/-- A directory that may hold pins: under its own name, or, of a book, one a cache. Whether
it has been over while it held one is kept beside it. -/
structure Place where
  kind : Kind
  pins : Dict Text Pin
  lapsed : Bool
  deriving DecidableEq

namespace Status

/-- `str(status.get("state") or ExperimentState.CREATED)`, or `unreadable`. -/
def state : Status → Text
  | missing => "created".toList
  | unreadable => "unreadable".toList
  | read t _ => if t = [] then "created".toList else t

def alive : Status → Bool
  | read _ alive => alive
  | _ => false

end Status

/-- An experiment has ended: completed, or archived while no worker runs it. -/
def Console.ended (c : Console) : Bool :=
  c.status.state = "completed".toList || c.archived && !c.status.alive

/-- A directory that is no consumer: of an experiment, one being deleted, one without a
console directory, or one whose experiment has ended. -/
def Kind.over : Kind → Bool
  | data _ => false
  | experiment hidden console => hidden || console.all Console.ended
  | book verdict => verdict = .status "killed".toList

/-- The generation a seed names. -/
def Kind.seed : Kind → Option Text
  | data (.names generation) => some generation
  | _ => none

/-- Why a generation is kept. -/
inductive KeepReason where
  | rawRecord
  | seed (name : Text)
  | pin (name : Text)
  | experiment (name state : Text)
  | paperAccount (name : Text)
  deriving DecidableEq

/-- `_seed_generation`; `str(… or "")` of an absent generation is empty. -/
def Provider.generation : Provider → Except Stop (List Text)
  | absent => .ok []
  | unreadable => .error .unreadable
  | names generation => .ok (if generation = [] then [] else [generation])

/-- The generation of the seed that an experiment names. -/
def Params.generation : Params → Except Stop (List Text)
  | unreadable => .error .unreadable
  | read seed => (seed.getD .absent).generation

/-- `pinned_generation` of every pin in a directory. -/
def Place.pinned (p : Place) : Except Stop (List Text) :=
  p.pins.values.mapM (fun pin => pinnedGeneration (some pin)) |>.map List.reduceOption

/-- The generations a directory keeps, each with its reason. -/
def Place.consumes (name : Text) (p : Place) : Except Stop (List (Text × KeepReason)) :=
  match p.kind with
  | .data provider => do
    let seed ← provider.generation
    let pinned ← p.pinned
    return seed.map (·, .seed name) ++ pinned.map (·, .pin name)
  | .experiment hidden console =>
    match console with
    | none => .ok []
    | some c =>
      if hidden || c.ended then .ok []
      else do
        let pinned ← p.pinned
        let seed ← c.params.generation
        return (pinned ++ seed).map (·, .experiment name c.status.state)
  | .book verdict =>
    match verdict with
    | .stops => .error .unreadable
    | .unreadable => p.pinned.map fun pinned => pinned.map (·, .paperAccount name)
    | .status t =>
      if t = "killed".toList then .ok []
      else p.pinned.map fun pinned => pinned.map (·, .paperAccount name)

/-- The directory a pin is recorded in. -/
structure Target where
  place : Text
  slot : Text
  deriving DecidableEq

/-- The updater's lock, the registry's and one a directory that is pinned. -/
inductive Lock where
  | updater | registry
  | pin (target : Target)
  deriving DecidableEq

/-- Where a pin stands. -/
inductive PinAt where
  | started
  | named (generation : Text)
  | newest
  | publishing (generation : Text)
  | recording (generation : Text)
  | fallingBack
  | fallback
  deriving DecidableEq

/-- Where a prune stands. -/
inductive PruneAt where
  | started
  | reading (todo : List Text) (kept : List (Text × KeepReason))
  | retiring (todo : List Text) (kept : List (Text × KeepReason))
  | removing (todo : List Text)
  deriving DecidableEq

inductive Process where
  | pin (target : Target) (wants : Option Text) (required : List Text) (at_ : PinAt)
  | prune (apply : Bool) (at_ : PruneAt)
  | update
  deriving DecidableEq

/-- The locks a process holds. -/
def Process.holds : Process → Lock → Option LockMode
  | .pin target _ _ _, .pin target' => if target = target' then some .exclusive else none
  | .pin _ _ _ (.named _), .registry | .pin _ _ _ (.publishing _), .registry
  | .pin _ _ _ .fallback, .registry => some .exclusive
  | .pin _ _ _ .newest, .updater | .pin _ _ _ (.publishing _), .updater
  | .pin _ _ _ (.recording _), .updater => some .shared
  | .prune apply _, .updater => if apply then some .exclusive else none
  | .prune _ (.reading _ _), .registry | .prune _ (.retiring _ _), .registry => some .exclusive
  | .update, .updater => some .exclusive
  | _, _ => none

/-- A lake: its generation record, its published releases, the hidden trees a retirement
left, the directories with pins, and what runs. -/
structure Lake where
  raw : RawFile
  releases : Registry
  hidden : List Text
  places : Dict Text Place
  procs : Dict Nat Process

/-- What a step finds that the model leaves open: the tree a publication clones, whether the
quality files a pin copies are whole, the generation a pin saw before it tried the updater
lock, and the record an update leaves. -/
structure Found where
  cloned : Option ReleaseTree := none
  copied : Bool := true
  observed : Text := []
  generation : Text := []

inductive Action where
  | beginPin (i : Nat) (target : Target) (wants : Option Text) (required : List Text)
  | beginPrune (i : Nat) (apply : Bool)
  | beginUpdate (i : Nat)
  | advance (i : Nat) (found : Found)
  | stop (i : Nat)
  | create (name : Text) (kind : Kind)
  | change (name : Text) (kind : Kind)
  | bindSeed (name generation : Text)
  | moveCache (name slot slot' : Text)
  | delete (name : Text)

namespace Lake

def free (lake : Lake) (i : Nat) (lock : Lock) (mode : LockMode) : Bool :=
  Locks.free Process.holds lake.procs i lock mode

def setProcess (lake : Lake) (i : Nat) (p : Process) : Lake :=
  { lake with procs := lake.procs.set i p }

/-- A process ends, and its locks are free. -/
def finish (lake : Lake) (i : Nat) : Lake := { lake with procs := lake.procs.erase i }

/-- The pin a directory holds, none where there is no directory or no pin. -/
def pinAt (lake : Lake) (target : Target) : Option Pin :=
  (lake.places.get? target.place).bind fun p => p.pins.get? target.slot

/-- `_publish_experiment_pin`: the pin is recorded and then loaded, and its generation
returned if that goes through. -/
def recordPin (lake : Lake) (fromLake : Release → Bool) (i : Nat) (target : Target)
    (release : Release) (copied : Bool) : Lake × Option Text :=
  match lake.places.get? target.place with
  | none => (lake.finish i, none)
  | some p =>
    if copied = false ∨ p.pins.get? target.slot ≠ none then (lake.finish i, none)
    else
      let pin := Pin.record ⟨true, release.generation, true⟩
      let place := ⟨p.kind, p.pins.set target.slot pin, p.lapsed || p.kind.over⟩
      ({ lake with places := lake.places.set target.place place }.finish i,
        loadExperimentPin lake.releases fromLake pin)

/-- One step of a pin; none while it waits for a lock. -/
def advancePin (lake : Lake) (fromLake : Release → Bool) (i : Nat) (target : Target)
    (wants : Option Text) (required : List Text) (at_ : PinAt) (found : Found) :
    Option (Lake × Option Text) :=
  let go (at_ : PinAt) := lake.setProcess i (.pin target wants required at_)
  let stops := some (lake.finish i, none)
  match at_ with
  | .started =>
    match lake.pinAt target with
    | some pin =>
      match loadExperimentPin lake.releases fromLake pin with
      | none => stops
      | some generation =>
        if (∀ wanted ∈ wants, generation = wanted) ∧
            (lake.releases.usable required generation).isSome then
          some (lake.finish i, some generation)
        else stops
    | none =>
      match wants with
      | some wanted =>
        if lake.free i .registry .exclusive then some (go (.named wanted), none) else none
      | none =>
        if lake.raw = .missing then stops
        else if lake.free i .updater .shared then some (go .newest, none)
        else some (go .fallingBack, none)
  | .named wanted =>
    match lake.releases.usable required wanted with
    | none => stops
    | some release =>
      if fromLake release then some (lake.recordPin fromLake i target release found.copied)
      else stops
  | .newest =>
    match lake.raw with
    | .missing | .unreadable => stops
    | .record _ _ =>
      match lake.raw.committed with
      | .error _ => some (go .fallingBack, none)
      | .ok generation =>
        if lake.free i .registry .exclusive then some (go (.publishing generation), none) else none
  | .publishing generation =>
    match lake.releases.get? generation with
    | some tree =>
      match completeRelease generation tree with
      | none => stops
      | some release => if fromLake release then some (go (.recording generation), none) else stops
    | none =>
      match found.cloned with
      | none => stops
      | some tree =>
        let published := { lake with releases := lake.releases.set generation tree }
        match completeRelease generation tree with
        | none => some (published.finish i, none)
        | some _ => some (published.setProcess i (.pin target wants required (.recording generation)), none)
  | .recording generation =>
    match lake.releases.usable required generation with
    | none => stops
    | some release => some (lake.recordPin fromLake i target release found.copied)
  | .fallingBack => if lake.free i .registry .exclusive then some (go .fallback, none) else none
  | .fallback =>
    match lake.releases.selectExisting fromLake required found.observed with
    | none => stops
    | some release => some (lake.recordPin fromLake i target release found.copied)

/-- The creation time and name of a release, or a manifest that cannot be read. -/
def listed (entry : Text × ReleaseTree) : Except Stop (Text × Text) :=
  match entry.2.manifest with
  | .read m => .ok (m.createdAt, entry.1)
  | _ => .error .unreadable

/-- Every release, oldest first. -/
def listReleases (lake : Lake) : Except Stop (List Text) :=
  (lake.releases.entries.mapM listed).map fun releases =>
    (releases.insertionSort fun a b => a.1 < b.1 ∨ a.1 = b.1 ∧ a.2 ≤ b.2).map Prod.snd

/-- The generation the raw record names, as `release_consumers` keeps it. -/
def keptRaw (lake : Lake) : Except Stop (List (Text × KeepReason)) :=
  match lake.raw with
  | .missing => .ok []
  | .unreadable => .error .unreadable
  | .record _ generation => .ok (if generation = [] then [] else [(generation, .rawRecord)])

/-- One step of a prune; none while it waits for the registry lock. -/
def advancePrune (lake : Lake) (i : Nat) (apply : Bool) (at_ : PruneAt) : Option Lake :=
  let go (at_ : PruneAt) := lake.setProcess i (.prune apply at_)
  match at_ with
  | .started =>
    if lake.free i .registry .exclusive then
      match lake.keptRaw with
      | .error _ => some (lake.finish i)
      | .ok kept => some (go (.reading lake.places.keys kept))
    else none
  | .reading (name :: todo) kept =>
    match lake.places.get? name with
    | none => some (go (.reading todo kept))
    | some p =>
      match p.consumes name with
      | .error _ => some (lake.finish i)
      | .ok more => some (go (.reading todo (kept ++ more)))
  | .reading [] kept =>
    match lake.listReleases with
    | .error _ => some (lake.finish i)
    | .ok releases =>
      if apply then some (go (.retiring releases kept)) else some (lake.finish i)
  | .retiring (generation :: todo) kept =>
    if generation ∈ kept.map Prod.fst then some (go (.retiring todo kept))
    else
      some { lake with
        releases := lake.releases.erase generation
        hidden := lake.hidden ++ [generation]
        procs := lake.procs.set i (.prune apply (.retiring todo kept)) }
  | .retiring [] _ => some (go (.removing lake.hidden))
  | .removing (tree :: todo) =>
    some { lake with
      hidden := lake.hidden.erase tree
      procs := lake.procs.set i (.prune apply (.removing todo)) }
  | .removing [] => some (lake.finish i)

/-- A generation that a directory under `data` has pinned. -/
def pinnedInData (lake : Lake) (generation : Text) : Bool :=
  lake.places.values.any fun p =>
    match p.kind with
    | .data _ => p.pins.values.any fun pin =>
      match pin with
      | .record r => r.generation = generation
      | .unreadable => false
    | _ => false

/-- No prune is reading the consumers. -/
def unread (lake : Lake) : Bool :=
  lake.procs.values.all fun p =>
    match p with
    | .prune _ (.reading _ _) => false
    | _ => true

/-- What a directory may turn into: another state of its experiment or book, or a seed whose
record cannot be read or is gone. -/
def mayBecome : Kind → Kind → Bool
  | .data provider, .data provider' =>
    (Kind.data provider').seed = none ∨ provider = provider'
  | .experiment _ _, .experiment _ _ | .book _, .book _ => true
  | _, _ => false

/-- What an action does and the generation of a pin that returns; none where it cannot be
taken. While a prune reads the consumers no cache is moved and no directory under `data` is
deleted, so that what it reads of one directory is one step. -/
def step (fromLake : Release → Bool) (lake : Lake) : Action → Option (Lake × Option Text)
  | .beginPin i target wants required =>
    if lake.procs.get? i = none ∧ lake.free i (.pin target) .exclusive then
      some (lake.setProcess i (.pin target wants required .started), none)
    else none
  | .beginPrune i apply =>
    if lake.procs.get? i = none ∧ (apply = true → lake.free i .updater .exclusive) then
      some (lake.setProcess i (.prune apply .started), none)
    else none
  | .beginUpdate i =>
    if lake.procs.get? i = none ∧ lake.free i .updater .exclusive then
      let generation := match lake.raw with
        | .record _ generation => generation
        | _ => []
      some ({ lake with raw := .record .updating generation }.setProcess i .update, none)
    else none
  | .advance i found =>
    match lake.procs.get? i with
    | none => none
    | some (.pin target wants required at_) =>
      lake.advancePin fromLake i target wants required at_ found
    | some (.prune apply at_) => (lake.advancePrune i apply at_).map (·, none)
    | some .update =>
      some ({ lake with raw := .record .committed found.generation }.finish i, none)
  | .stop i => some (lake.finish i, none)
  | .create name kind =>
    if lake.places.get? name = none ∧ kind.seed = none then
      some ({ lake with places := lake.places.set name ⟨kind, Dict.empty, false⟩ }, none)
    else none
  | .change name kind =>
    match lake.places.get? name with
    | none => none
    | some p =>
      if mayBecome p.kind kind then
        let lapsed := p.lapsed || p.pins.entries ≠ [] && kind.over
        some ({ lake with places := lake.places.set name ⟨kind, p.pins, lapsed⟩ }, none)
      else none
  | .bindSeed name generation =>
    match lake.places.get? name with
    | some ⟨.data .absent, pins, lapsed⟩ =>
      if lake.pinnedInData generation then
        let place := ⟨.data (.names generation), pins, lapsed⟩
        some ({ lake with places := lake.places.set name place }, none)
      else none
    | _ => none
  | .moveCache name slot slot' =>
    match lake.places.get? name with
    | none => none
    | some p =>
      match p.pins.get? slot with
      | none => none
      | some pin =>
        if p.pins.get? slot' = none ∧ lake.unread then
          let pins := (p.pins.erase slot).set slot' pin
          some ({ lake with places := lake.places.set name { p with pins } }, none)
        else none
  | .delete name =>
    if lake.unread then some ({ lake with places := lake.places.erase name }, none) else none

/-- Actions one after another. -/
def run (fromLake : Release → Bool) : Lake → List Action → Option Lake
  | lake, [] => some lake
  | lake, action :: actions => (lake.step fromLake action).bind fun after =>
    run fromLake after.1 actions

end Lake

end Retention

end AutoTrade
