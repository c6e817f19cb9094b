import AutoTrade.Environment.StrategyWorker

/-!
# The host's end of a strategy worker

A call is checked against what the worker was last sent, and only the bars the
worker does not hold are shipped. A call that fails at any point closes the
executor with its workers; a new executor starts new ones.
-/

namespace AutoTrade

namespace StrategyProtocol

open Json JsonLines JsonObject

/-- What the host refuses before it sends anything. -/
inductive HostError where
  /-- Strategy bar PIT metadata is inconsistent. -/
  | inconsistent
  /-- Strategy `inference_at` must increase monotonically. -/
  | notLater
  /-- Strategy bars are not append-only. -/
  | notAppendOnly
  /-- Strategy bars changed before `base_count`. -/
  | changedBefore
  /-- Strategy context contains data not visible at inference time. -/
  | notVisible
  /-- Strategy bar `available_at` must be monotonic. -/
  | notMonotonic
  /-- Strategy context has `{name}` without a mount. -/
  | noMount (name : String)
  deriving DecidableEq

/-- One decision's input; its bars are the first `barCount` of the table. -/
structure StrategyCall (clock : DateTimes) where
  inferenceAt : Instant
  barTable : List (BarRow clock)
  barCount : Nat
  account : AccountSnapshot
  snapshotDir : Text := []
  asofDir : Text := []
  asofVersion : Text := ['0']
  stateDir : Text := []
  modelsDir : Text := []
  pretrainedDir : Text := []
  /-- The version is a number the time view counts. -/
  versioned : '\x00' ∉ asofVersion := by decide

/-- The bars of a call. -/
def StrategyCall.bars {clock : DateTimes} (call : StrategyCall clock) : List (BarRow clock) :=
  call.barTable.take call.barCount

/-- The directories bound into the containers. -/
structure Mounts where
  snapshotDir : Bool
  asofDir : Bool
  modelsDir : Bool
  stateDir : Bool
  pretrainedDir : Bool

/-- `CONTAINER_SNAPSHOT_DIR`. -/
def containerSnapshotDir : Text := "/strategy-data/snapshot".toList
/-- `CONTAINER_ASOF_DIR`. -/
def containerAsofDir : Text := "/strategy-data/asof".toList
/-- `CONTAINER_MODELS_DIR`. -/
def containerModelsDir : Text := "/strategy-data/models".toList
/-- `CONTAINER_STATE_DIR`. -/
def containerStateDir : Text := "/strategy-data/state".toList
/-- `CONTAINER_PRETRAINED_DIR`. -/
def containerPretrainedDir : Text := "/strategy-data/pretrained".toList

/-- The path the strategy sees for a directory of the call. -/
def mountedDir (name : String) (given : Text) (mounted : Bool) (target : Text) :
    Except HostError Text :=
  if given = [] then .ok []
  else if mounted then .ok target
  else .error (.noMount name)

/-- `_context_record`. -/
def contextRecord {clock : DateTimes} (mounts : Mounts) (call : StrategyCall clock) :
    Except HostError JsonObject := do
  let snapshotDir ← mountedDir "snapshot_dir" call.snapshotDir mounts.snapshotDir
    containerSnapshotDir
  let asofDir ← mountedDir "asof_dir" call.asofDir mounts.asofDir containerAsofDir
  let modelsDir ← mountedDir "models_dir" call.modelsDir mounts.modelsDir containerModelsDir
  let stateDir ← mountedDir "state_dir" call.stateDir mounts.stateDir containerStateDir
  let pretrainedDir ← mountedDir "pretrained_dir" call.pretrainedDir mounts.pretrainedDir
    containerPretrainedDir
  return ofFields
    [("inference_at", str (clock.iso call.inferenceAt)),
      ("account", obj call.account.toRecord),
      ("snapshot_dir", str snapshotDir),
      ("asof_dir", str asofDir),
      ("asof_version", str call.asofVersion),
      ("state_dir", str stateDir),
      ("models_dir", str modelsDir),
      ("pretrained_dir", str pretrainedDir)]

/-- What the worker was last sent; `sequence` is none before the first call. -/
structure Transport (clock : DateTimes) where
  sequence : Option Nat := none
  inferenceAt : Option Instant := none
  count : Nat := 0
  table : List (BarRow clock) := []
  lastAvailableAt : Option Instant := none

/-- The bars of a delta, available by the decision and never earlier than the bar
    before; the instant of the last of them. -/
def checkDelta {clock : DateTimes} (inferenceAt : Instant) :
    Option Instant → List (BarRow clock) → Except HostError (Option Instant)
  | last, [] => .ok last
  | last, row :: rest =>
    if inferenceAt < row.availableAt then .error .notVisible
    else if last.any fun before => row.availableAt < before then .error .notMonotonic
    else checkDelta inferenceAt (some row.availableAt) rest

namespace Transport

variable {clock : DateTimes}

/-- The sequence number of the next call. -/
def nextSequence (transport : Transport clock) : Nat :=
  match transport.sequence with
  | none => 0
  | some last => last + 1

/-- The bars the worker holds; the first call resets it. -/
def baseCount (transport : Transport clock) : Nat :=
  if transport.sequence.isNone then 0 else transport.count

/-- The instant of the last of them. -/
def baseAvailableAt (transport : Transport clock) : Option Instant :=
  if transport.sequence.isNone then none else transport.lastAvailableAt

/-- The checks of a call that goes on from an earlier one. -/
def checkContinues (transport : Transport clock) (call : StrategyCall clock) :
    Except HostError Unit := do
  if transport.sequence.isSome then
    if transport.inferenceAt.all fun before => call.inferenceAt ≤ before then throw .notLater
    if call.barCount < transport.count then throw .notAppendOnly
    if !prefixMatches transport.table call.barTable transport.count then throw .changedBefore

/-- `_prepare_execute`: the request, and the instant of the last bar it leaves the
    worker with. -/
def prepareExecute (transport : Transport clock) (mounts : Mounts) (kind : CallKind)
    (call : StrategyCall clock) : Except HostError (JsonObject × Option Instant) := do
  if call.barTable.length < call.barCount then throw .inconsistent
  transport.checkContinues call
  let delta := call.bars.drop transport.baseCount
  let lastAvailableAt ← checkDelta call.inferenceAt transport.baseAvailableAt delta
  let context ← contextRecord mounts call
  return (ofFields
    [("sequence", num (.ofNat transport.nextSequence)),
      ("reset", .bool transport.sequence.isNone),
      ("base_count", num (.ofNat transport.baseCount)),
      ("total_count", num (.ofNat call.barCount)),
      ("context", obj context),
      ("bars", arr (delta.map fun row => obj row.fields)),
      ("type", str kind.name)], lastAvailableAt)

/-- The call is answered. -/
def commit (transport : Transport clock) (call : StrategyCall clock)
    (lastAvailableAt : Option Instant) : Transport clock :=
  { sequence := some transport.nextSequence
    inferenceAt := some call.inferenceAt
    count := call.barCount
    table := call.barTable
    lastAvailableAt }

end Transport

/-- A worker's pipe, with what each end of it keeps. -/
structure Link (clock : DateTimes) where
  transport : Transport clock := {}
  stream : BarStream clock := {}

/-- What comes of a request: the worker is gone before it reads it, or the
    strategy's code runs and the host takes its answer, or does not (it raised, its
    clock ran out, it said too much, or it answered out of turn). -/
inductive Answer where
  | died
  | replied
  | failed

/-- How a call ended; `ran` has the context the worker rebuilt. -/
inductive CallResult (clock : DateTimes) where
  /-- Docker strategy executor is closed. -/
  | closed
  /-- Strategy defines no `fit(context)`. -/
  | noFit
  /-- Docker strategy worker did not become ready. -/
  | notReady
  | refused (error : HostError)
  | lost
  /-- Strategy worker rejected the host protocol. -/
  | rejected (error : ProtocolError)
  | ran (context : StrategyContext clock)

/-- `_roundtrip`; without a link left the call failed, and its worker is stopped. -/
def Link.roundtrip {clock : DateTimes} (link : Link clock) (mounts : Mounts) (definesFit : Bool)
    (kind : CallKind) (call : StrategyCall clock) (answer : Answer) :
    CallResult clock × Option (Link clock) :=
  match link.transport.prepareExecute mounts kind call with
  | .error error => (.refused error, none)
  | .ok (request, lastAvailableAt) =>
    match answer with
    | .died => (.lost, none)
    | _ =>
      match link.stream.receive definesFit (dumpLine request) with
      | .error error => (.rejected error, none)
      | .ok (context, stream) =>
        (.ran context, match answer with
          | .replied => some ⟨link.transport.commit call lastAvailableAt, stream⟩
          | _ => none)

/-- `DockerStrategyExecutor`: closed once `inference` has no link, and the worker
    of `fit` is started by the first fit. -/
structure Executor (clock : DateTimes) where
  mounts : Mounts
  definesFit : Bool
  inference : Option (Link clock) := some {}
  fitWorker : Option (Link clock) := none

namespace Executor

variable {clock : DateTimes}

/-- `close` and `_abort`. -/
def close (executor : Executor clock) : Executor clock :=
  { executor with inference := none, fitWorker := none }

def execute (executor : Executor clock) (call : StrategyCall clock) (answer : Answer) :
    CallResult clock × Executor clock :=
  match executor.inference with
  | none => (.closed, executor)
  | some link =>
    match link.roundtrip executor.mounts executor.definesFit .execute call answer with
    | (result, none) => (result, executor.close)
    | (result, some link) => (result, { executor with inference := some link })

/-- `fit`; `ready` says whether a worker it has to start comes up. -/
def fit (executor : Executor clock) (ready : Bool) (call : StrategyCall clock)
    (answer : Answer) : CallResult clock × Executor clock :=
  if executor.definesFit = false then (.noFit, executor)
  else if executor.inference.isNone then (.closed, executor)
  else if executor.fitWorker.isNone ∧ ready = false then (.notReady, executor)
  else
    match (executor.fitWorker.getD {}).roundtrip executor.mounts executor.definesFit .fit call
      answer with
    | (result, none) => (result, executor.close)
    | (result, some link) => (result, { executor with fitWorker := some link })

end Executor

/-- What the host does next. -/
inductive HostAction (clock : DateTimes) where
  | execute (call : StrategyCall clock) (answer : Answer)
  | fit (ready : Bool) (call : StrategyCall clock) (answer : Answer)
  | close
  /-- A new executor, of any strategy. -/
  | restart (mounts : Mounts) (definesFit : Bool)

/-- An executor, and the calls made so far with how they ended. -/
structure HostState (clock : DateTimes) where
  executor : Executor clock
  calls : List (StrategyCall clock × CallResult clock) := []

namespace HostState

variable {clock : DateTimes}

/-- A call is over. -/
def after (state : HostState clock) (call : StrategyCall clock)
    (done : CallResult clock × Executor clock) : HostState clock :=
  ⟨done.2, state.calls ++ [(call, done.1)]⟩

def step (state : HostState clock) : HostAction clock → HostState clock
  | .execute call answer => state.after call (state.executor.execute call answer)
  | .fit ready call answer => state.after call (state.executor.fit ready call answer)
  | .close => { state with executor := state.executor.close }
  | .restart mounts definesFit => { state with executor := { mounts, definesFit } }

def run (state : HostState clock) (actions : List (HostAction clock)) : HostState clock :=
  actions.foldl step state

end HostState

end StrategyProtocol

end AutoTrade
