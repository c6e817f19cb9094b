import AutoTrade.Common.JsonWriter
import AutoTrade.Common.PyValue
import AutoTrade.Environment.SessionTree
import AutoTrade.Misc.Locks

/-!
# Agent references

`environment/identity.py`: the table of references that an experiment keeps in its private
directory, how it is written and read back, and the processes that look up and create references
in it. A process that is gone has done part of what it does; what it did to a file stays.
-/

namespace AutoTrade.AgentRefStore

open CodePoint (ofText)
open PyJson (get? loads dumpsIndented)
open PyValue (lit)
open SessionTree (RefNamespace AgentRef isUuid4)
open Utf8 (Bytes)

/-- The key of `AGENT_REF_PREFIXES`. -/
def nameOf : RefNamespace → PyStr
  | .session => lit "session"
  | .strategy => lit "strategy"
  | .run => lit "run"
  | .trace => lit "trace"

inductive StoreError where
  | corruptExperiment
  | unavailable
  | notRegular
  | directoryMode
  | fileMode
  | unreadable
  | root
  | fields
  | schemaVersion
  | experiment
  | entries
  | entry
  | unsupported (value : PyJson)
  | emptySource
  | refType
  | refPrefix (refs : RefNamespace)
  | uuid (refs : RefNamespace)
  | canonical (refs : RefNamespace)
  | duplicate
  /-- A `KeyError`; the others are an `AgentRefStoreError`. -/
  | unknown (refs : RefNamespace)

/-- The store's surroundings: the name of the experiment, the path of the table, `repr`, which
texts `uuid.UUID` takes, and the modes that the umask leaves a new file and a new directory. -/
structure Host where
  experiment : PyStr
  path : PyStr
  repr : PyJson → PyStr
  uuidReads : PyStr → Bool
  newFile : Nat
  newDirectory : Nat

variable (host : Host)

def StoreError.message : StoreError → PyStr
  | corruptExperiment => lit "experiment has recorded work but no Agent reference store; it is " ++
      lit "corrupt and cannot be read, resumed or changed"
  | unavailable => lit "agent reference store is unavailable"
  | notRegular => lit "agent reference store must be a regular file"
  | directoryMode => lit "agent reference host directory mode must be 0700"
  | fileMode => lit "agent reference store mode must be 0600"
  | unreadable => lit "invalid agent reference store: " ++ host.path
  | root => lit "agent reference store root must be an object"
  | fields => lit "invalid agent reference store fields"
  | schemaVersion => lit "unsupported agent reference store schema_version"
  | experiment => lit "agent reference store experiment mismatch"
  | entries => lit "agent reference store entries must be a list"
  | entry => lit "invalid agent reference entry"
  | unsupported value => lit "unsupported agent reference namespace: " ++ host.repr value
  | emptySource => lit "agent reference source must be a non-empty string"
  | refType => lit "agent reference must be a string"
  | refPrefix refs => lit "invalid " ++ nameOf refs ++ lit " reference prefix"
  | uuid refs => lit "invalid " ++ nameOf refs ++ lit " UUID reference"
  | canonical refs => lit "non-canonical UUID4 " ++ nameOf refs ++ lit " reference"
  | duplicate => lit "duplicate agent reference source or ref"
  | unknown refs => lit "unknown " ++ nameOf refs ++ lit " reference"

/-- `_validate_namespace`. -/
def validateNamespace (value : PyJson) : Except StoreError RefNamespace :=
  match value with
  | .str name =>
    match [RefNamespace.session, .strategy, .run, .trace].find? fun refs => nameOf refs = name with
    | some refs => .ok refs
    | none => .error (.unsupported value)
  | _ => .error (.unsupported value)

/-- A text that is not empty. -/
abbrev Source := {source : PyStr // source ≠ []}

/-- `_source_text`. -/
def sourceText (rawSource : PyJson) : Except StoreError Source :=
  match rawSource with
  | .str source => if filled : source ≠ [] then .ok ⟨source, filled⟩ else .error .emptySource
  | _ => .error .emptySource

/-- The text of a reference. -/
def refText {refs : RefNamespace} (ref : AgentRef refs) : PyStr := ofText ref.text

/-- `_validate_ref`. What is canonical is read by `uuid.UUID`. -/
def validateRef (refs : RefNamespace) (ref : PyStr) : Except StoreError (AgentRef refs) :=
  let begins := ofText (refs.refPrefix ++ ['_'])
  if !begins.isPrefixOf ref then .error (.refPrefix refs)
  else
    let token := ref.drop begins.length
    match token.mapM CodePoint.toChar with
    | some text =>
      if canonical : isUuid4 text = true then .ok ⟨text, canonical⟩
      else .error (if host.uuidReads token then .canonical refs else .uuid refs)
    | none => .error (if host.uuidReads token then .canonical refs else .uuid refs)

/-- An entry of the table. -/
structure Entry where
  refs : RefNamespace
  source : Source
  ref : AgentRef refs

def Entry.refText (entry : Entry) : PyStr := AgentRefStore.refText entry.ref

/-- Two entries differ in their source and in their reference. -/
def Entry.Apart (e e' : Entry) : Prop :=
  ¬ (e.refs = e'.refs ∧ e.source = e'.source) ∧ e.refText ≠ e'.refText

instance (e e' : Entry) : Decidable (e.Apart e') := inferInstanceAs (Decidable (_ ∧ _))

/-- The table: no source and no reference is in it twice. -/
structure Table where
  entries : List Entry
  apart : entries.Pairwise Entry.Apart

def Table.empty : Table := ⟨[], .nil⟩

def Table.append (table : Table) (entry : Entry) (fresh : ∀ e ∈ table.entries, e.Apart entry) :
    Table where
  entries := table.entries ++ [entry]
  apart := List.pairwise_append.mpr ⟨table.apart, List.pairwise_singleton _ _, by simpa using fresh⟩

/-- The entry of a source. -/
def Table.ofSource? (table : Table) (refs : RefNamespace) (source : Source) : Option Entry :=
  table.entries.find? fun e => e.refs = refs && e.source = source

/-- The entry of a reference. -/
def Table.ofRef? (table : Table) (refs : RefNamespace) (ref : PyStr) : Option Entry :=
  table.entries.find? fun e => e.refs = refs && e.refText = ref

/-- `set(record) == {…}`. -/
def hasKeys (names : List PyStr) (pairs : List (PyStr × PyJson)) : Bool :=
  names.all (· ∈ pairs.map Prod.fst) && pairs.all fun pair => pair.1 ∈ names

def field (name : String) (record : PyJson) : PyJson := (get? (lit name) record).getD .null

def readEntry (entry : PyJson) : Except StoreError Entry :=
  match entry with
  | .dict pairs =>
    if !hasKeys [lit "namespace", lit "source", lit "ref"] pairs then .error .entry
    else do
      let refs ← validateNamespace (field "namespace" entry)
      let source ← sourceText (field "source" entry)
      let .str ref := field "ref" entry | throw .refType
      let ref ← validateRef host refs ref
      pure ⟨refs, source, ref⟩
  | _ => .error .entry

/-- One more entry of a table that is being read. -/
def readNext (table : Table) (entry : PyJson) : Except StoreError Table := do
  let entry ← readEntry host entry
  if fresh : ∀ e ∈ table.entries, e.Apart entry then pure (table.append entry fresh)
  else throw .duplicate

def readEntries (entries : List PyJson) : Except StoreError Table :=
  entries.foldlM (readNext host) .empty

/-- The integer 1 has one spelling. -/
def isVersion (value : PyJson) : Bool :=
  match value with
  | .int token => token = ['1']
  | _ => false

def isText (value : PyJson) (text : PyStr) : Bool :=
  match value with
  | .str value => value = text
  | _ => false

/-- What a payload says, once it has been validated. -/
def readPayload (payload : PyJson) : Except StoreError Table :=
  match payload with
  | .dict pairs =>
    if !hasKeys [lit "schema_version", lit "experiment", lit "entries"] pairs then .error .fields
    else if !isVersion (field "schema_version" payload) then .error .schemaVersion
    else if !isText (field "experiment" payload) host.experiment then .error .experiment
    else
      match field "entries" payload with
      | .list entries => readEntries host entries
      | _ => .error .entries
  | _ => .error .root

def Entry.record (entry : Entry) : PyJson :=
  .dict [(lit "namespace", .str (nameOf entry.refs)), (lit "ref", .str entry.refText),
    (lit "source", .str entry.source.val)]

/-- The payload of a table, its keys sorted as they are written. -/
def payloadOf (table : Table) : PyJson :=
  .dict [(lit "entries", .list (table.entries.map Entry.record)),
    (lit "experiment", .str host.experiment), (lit "schema_version", .int ['1'])]

/-- `json.dumps(payload, ensure_ascii=False, indent=2, sort_keys=True) + "\n"`. -/
def serialized (table : Table) : PyStr := dumpsIndented (payloadOf host table) ++ lit "\n"

structure File where
  bytes : Bytes
  mode : Nat

/-- What `_has_recorded_work` looks at: the size of the ledger, how much is in the directory of
the steps, and the sizes of the files among the traces. -/
structure Work where
  ledger : Option Nat
  steps : Option Nat
  traces : Option (List (Option Nat))

/-- `_has_recorded_work`. -/
def hasRecordedWork (work : Work) : Bool :=
  work.ledger.any (· ≠ 0) || work.steps.any (· ≠ 0) ||
    work.traces.any fun traces => traces.any fun size => size.any (· ≠ 0)

/-- The experiment's files: the mode of the private directory, once it is there, whether the lock
file is, the table, what has been written beside it, and the recorded work. -/
structure Files where
  hostMode : Option Nat
  lock : Bool
  store : Option File
  temps : Dict Text File
  work : Work

/-- `_read_unlocked`. -/
def readUnlocked (files : Files) : Except StoreError Table :=
  match files.store with
  | none => .error .notRegular
  | some file =>
    if files.hostMode ≠ some 0o700 then .error .directoryMode
    else if file.mode ≠ 0o600 then .error .fileMode
    else
      match (CodePoint.decode file.bytes).bind fun text => loads (ofText text) with
      | none => .error .unreadable
      | some payload => readPayload host payload

/-- A system call of `_locked`, up to the lock itself. -/
inductive Opening where
  | makeHost
  | chmodHost
  | createLock
  | openLock

/-- A system call of `_locked`, nothing when it raises. -/
def Files.opened (files : Files) : Opening → Option Files
  | .makeHost => some { files with hostMode := some (files.hostMode.getD host.newDirectory) }
  | .chmodHost => files.hostMode.map fun _ => { files with hostMode := some 0o700 }
  | .createLock => files.hostMode.map fun _ => { files with lock := true }
  | .openLock => if files.lock then some files else none

/-- A step of `_write_unlocked`. -/
inductive WriteStep where
  | create
  | chmodTemp
  | write (text : PyStr)
  | sync
  | replace
  | chmodStore
  | syncDirectory

/-- A step of `_write_unlocked`, with the name of its temporary file, nothing when it raises. -/
def Files.written (files : Files) (temp : Text) : WriteStep → Option Files
  | .create =>
    if temp ∈ files.temps.keys then none
    else some { files with temps := files.temps.set temp ⟨[], host.newFile⟩ }
  | .chmodTemp => (files.temps.get? temp).map fun file =>
      { files with temps := files.temps.set temp { file with mode := 0o600 } }
  | .write text => do
    let file ← files.temps.get? temp
    let bytes ← CodePoint.encode text
    pure { files with temps := files.temps.set temp { file with bytes := file.bytes ++ bytes } }
  | .sync => some files
  | .replace => (files.temps.get? temp).map fun file =>
      { files with store := some file, temps := files.temps.erase temp }
  | .chmodStore => files.store.map fun file =>
      { files with store := some { file with mode := 0o600 } }
  | .syncDirectory => some files

/-- What a step that does not come to its end may leave: of a text some of its bytes. -/
def Files.torn (files : Files) (temp : Text) : WriteStep → List Files
  | .write text =>
    match files.temps.get? temp, CodePoint.encode text with
    | some file, some bytes => files :: (List.range bytes.length).map fun n =>
        { files with
          temps := files.temps.set temp { file with bytes := file.bytes ++ bytes.take n } }
    | _, _ => [files]
  | _ => [files]

def writeSteps (table : Table) : List WriteStep :=
  [.create, .chmodTemp, .write (serialized host table), .sync, .replace, .chmodStore,
    .syncDirectory]

inductive Call where
  | initialize'
  | getOrCreate (namespace' rawSource : PyJson)
  | resolve (namespace' : PyJson) (ref : PyStr)

/-- A call whose arguments have been validated. -/
inductive Task where
  | initialize'
  | getOrCreate (refs : RefNamespace) (source : Source)
  | resolve (refs : RefNamespace) (ref : AgentRef refs)

/-- What a call checks before it looks at a file. -/
def admitted : Call → Except StoreError Task
  | .initialize' => .ok .initialize'
  | .getOrCreate namespace' rawSource => do
    let refs ← validateNamespace namespace'
    let source ← sourceText rawSource
    pure (.getOrCreate refs source)
  | .resolve namespace' ref => do
    let refs ← validateNamespace namespace'
    let ref ← validateRef host refs ref
    pure (.resolve refs ref)

/-- What a call comes to; a system call that raises may be one that writes the table. -/
inductive Outcome where
  | ready
  | ref (text : PyStr)
  | source (text : PyStr)
  | raised (error : StoreError)
  | failed (writing : Bool)

/-- Where a call is. -/
inductive Stage where
  | called
  /-- The table was not there, outside the lock. -/
  | guarding
  | opening (steps : List Opening)
  | waiting
  | locked
  /-- The table was not there, under the lock. -/
  | lockedGuarding
  | writing (temp : Text) (table : Table) (steps : List WriteStep) (answer : Outcome)
  /-- A write has raised, and the temporary file is to go. -/
  | cleaning (temp : Text)

/-- What a call does next: it goes on, or it ends. -/
inductive Next where
  | goes (stage : Stage)
  | ends (outcome : Outcome)

/-- What a call is given at random: UUIDs, and a name for the temporary file. -/
structure Draws where
  tokens : List {token : Text // isUuid4 token = true}
  temp : Text

/-- The first of the references drawn that the table does not have. -/
def freshRef (refs : RefNamespace) (table : Table) (draws : Draws) :
    Option {ref : AgentRef refs // ∀ e ∈ table.entries, e.refText ≠ refText ref} :=
  draws.tokens.findSome? fun token =>
    let ref : AgentRef refs := ⟨token.val, token.property⟩
    if fresh : ∀ e ∈ table.entries, e.refText ≠ refText ref then some ⟨ref, fresh⟩ else none

theorem Table.apart_of_absent {table : Table} {refs : RefNamespace} {source : Source}
    (absent : table.ofSource? refs source = none) {ref : AgentRef refs}
    (fresh : ∀ e ∈ table.entries, e.refText ≠ refText ref) :
    ∀ e ∈ table.entries, e.Apart ⟨refs, source, ref⟩ := by
  intro e member
  have other := List.find?_eq_none.mp absent e member
  exact ⟨by simpa using other, fresh e member⟩

/-- The body of `get_or_create`, from the table on; nothing while it draws. -/
def obtain' (draws : Draws) (table : Table) (refs : RefNamespace) (source : Source) : Option Next :=
  match absent : table.ofSource? refs source with
  | some entry => some (.ends (.ref entry.refText))
  | none => (freshRef refs table draws).map fun ⟨ref, fresh⟩ =>
      let table := table.append ⟨refs, source, ref⟩ (table.apart_of_absent absent fresh)
      .goes (.writing draws.temp table (writeSteps host table) (.ref (refText ref)))

/-- The body of a call, under the lock. -/
def body (draws : Draws) (files : Files) : Task → Option Next
  | .initialize' =>
    if files.store.isSome then
      match readUnlocked host files with
      | .ok _ => some (.ends .ready)
      | .error error => some (.ends (.raised error))
    else some (.goes .lockedGuarding)
  | .getOrCreate refs source =>
    if files.store.isSome then
      match readUnlocked host files with
      | .ok table => obtain' host draws table refs source
      | .error error => some (.ends (.raised error))
    else some (.goes .lockedGuarding)
  | .resolve refs ref =>
    match readUnlocked host files with
    | .ok table =>
      match table.ofRef? refs (refText ref) with
      | some entry => some (.ends (.source entry.source.val))
      | none => some (.ends (.raised (.unknown refs)))
    | .error error => some (.ends (.raised error))

/-- The body of a call that found no table. -/
def begin' (draws : Draws) : Task → Option Next
  | .initialize' => some (.goes (.writing draws.temp .empty (writeSteps host .empty) .ready))
  | .getOrCreate refs source => obtain' host draws .empty refs source
  | .resolve _ _ => none

def creating : List Opening := [.makeHost, .chmodHost, .createLock]

/-- The next step of a call, nothing while it waits. -/
def advance (isFree : Bool) (draws : Draws) (files : Files) (task : Task) :
    Stage → Option (Files × Next)
  | .called =>
    match task with
    | .resolve _ _ =>
      if files.lock then some (files, .goes (.opening [.openLock]))
      else some (files, .ends (.raised .unavailable))
    | _ =>
      if files.store.isSome then some (files, .goes (.opening creating))
      else some (files, .goes .guarding)
  | .guarding =>
    if hasRecordedWork files.work then some (files, .ends (.raised .corruptExperiment))
    else some (files, .goes (.opening creating))
  | .opening [] => some (files, .goes .waiting)
  | .opening (step :: rest) =>
    match files.opened host step with
    | some files => some (files, .goes (.opening rest))
    | none => some (files, .ends (.failed false))
  | .waiting => if isFree then some (files, .goes .locked) else none
  | .locked => (body host draws files task).map (files, ·)
  | .lockedGuarding =>
    if hasRecordedWork files.work then some (files, .ends (.raised .corruptExperiment))
    else (begin' host draws task).map (files, ·)
  | .writing _ _ [] answer => some (files, .ends answer)
  | .writing temp table (step :: rest) answer =>
    match files.written host temp step with
    | some files => some (files, .goes (.writing temp table rest answer))
    | none => some (files, .goes (.cleaning temp))
  | .cleaning temp => some ({ files with temps := files.temps.erase temp }, .ends (.failed true))

/-- What a step that raises leaves, and what the call does then. -/
def faults (files : Files) : Stage → List (Files × Next)
  | .writing temp _ (step :: _) _ => (files.torn temp step).map (·, .goes (.cleaning temp))
  | .writing _ _ [] _ => [(files, .ends (.failed true))]
  | .cleaning _ => [(files, .ends (.failed true))]
  | _ => [(files, .ends (.failed false))]

/-- What a process that is cut off leaves. -/
def remains (files : Files) : Stage → List Files
  | .writing temp _ (step :: _) _ => files.torn temp step
  | _ => [files]

/-- A reference that a call has returned for a source. -/
abbrev Returned := RefNamespace × PyStr × PyStr

/-- A process in a call, and what had been returned when it was made. -/
structure Proc where
  task : Task
  known : List Returned
  stage : Stage

/-- How a call ended. -/
structure Ending where
  task : Task
  known : List Returned
  outcome : Outcome

/-- How a call takes the lock: `resolve` shares it. -/
def Task.mode : Task → LockMode
  | .resolve _ _ => .shared
  | _ => .exclusive

/-- The stages under the lock. -/
def Stage.isLocked : Stage → Bool
  | .locked => true
  | .lockedGuarding => true
  | .writing _ _ _ _ => true
  | .cleaning _ => true
  | _ => false

/-- How a process holds the lock. -/
def holds (proc : Proc) (_ : Unit) : Option LockMode :=
  if proc.stage.isLocked then some proc.task.mode else none

variable {ι : Type} [DecidableEq ι]

/-- The files, the processes, and how calls have ended. -/
structure State (ι : Type) [DecidableEq ι] where
  files : Files
  procs : Dict ι Proc
  returned : List Returned
  endings : List Ending

/-- What an outcome adds to what has been returned. -/
def Task.returns (task : Task) : Outcome → List Returned
  | .ref text =>
    match task with
    | .getOrCreate refs source => [(refs, source.val, text)]
    | _ => []
  | _ => []

def State.after (s : State ι) (i : ι) (proc : Proc) (files : Files) : Next → State ι
  | .goes stage => { s with files, procs := s.procs.set i { proc with stage } }
  | .ends outcome =>
    { files
      procs := s.procs.erase i
      returned := s.returned ++ proc.task.returns outcome
      endings := s.endings ++ [⟨proc.task, proc.known, outcome⟩] }

/-- One step: a process makes a call, goes on, meets an error or is cut off, or the experiment
records or removes work. -/
inductive Step : State ι → State ι → Prop where
  | call {s : State ι} {i : ι} {call : Call} {task : Task} (absent : s.procs.get? i = none)
      (valid : admitted host call = .ok task) :
      Step s { s with procs := s.procs.set i ⟨task, s.returned, .called⟩ }
  | goes {s : State ι} {i : ι} {proc : Proc} {draws : Draws} {files : Files} {next : Next}
      (present : s.procs.get? i = some proc)
      (moves : advance host (Locks.free holds s.procs i () proc.task.mode) draws s.files proc.task
        proc.stage = some (files, next)) :
      Step s (s.after i proc files next)
  | raises {s : State ι} {i : ι} {proc : Proc} {files : Files} {next : Next}
      (present : s.procs.get? i = some proc) (fault : (files, next) ∈ faults s.files proc.stage) :
      Step s (s.after i proc files next)
  | ends {s : State ι} {i : ι} {proc : Proc} {files : Files}
      (present : s.procs.get? i = some proc) (left : files ∈ remains s.files proc.stage) :
      Step s { s with files, procs := s.procs.erase i }
  | records {s : State ι} (work : Work) : Step s { s with files := { s.files with work } }

/-- The processes get from one state to another. -/
abbrev Reaches : State ι → State ι → Prop := Relation.ReflTransGen (Step host)

/-- An experiment without a table, and no process yet. -/
def State.start (files : Files) : State ι := ⟨files, .empty, [], []⟩

end AutoTrade.AgentRefStore
